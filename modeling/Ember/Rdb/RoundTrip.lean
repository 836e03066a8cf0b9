import Ember.Rdb.Codec

/-!
# Snapshots round trip

The loader on a whole file that was written from the entries of two maps, in any
order.  It returns an error when an expiry record has a reserved key; otherwise
it returns the data without its empty lists, and for every deadline the instant
that its wall-clock millisecond stands for at load time.
-/

namespace Ember.Rdb

open Ember.Base Ember.Database Reader

/-- The result of the record loop, with as much fuel as there are bytes. -/
def Parses (clock : ℕ → Clocks) (loaded : Loaded) (input : List UInt8)
    (result : Outcome String Loaded) : Prop :=
  ∀ fuel, input.length ≤ fuel → parseRecords clock fuel loaded input = result

namespace Parses

variable {clock : ℕ → Clocks} {loaded loaded' : Loaded} {front rest : List UInt8}
  {result : Outcome String Loaded}

theorem nil (clock : ℕ → Clocks) (loaded : Loaded) : Parses clock loaded [] (.ok loaded) := by
  intro fuel _
  cases fuel <;> rfl

/-- A record is taken from the front, and the loop goes on with the rest. -/
theorem record (taken : front ≠ [])
    (decoded : Decodes (parseRecord clock loaded) front (some loaded'))
    (parses : Parses clock loaded' rest result) : Parses clock loaded (front ++ rest) result := by
  rcases List.exists_cons_of_ne_nil taken with ⟨first, tail, rfl⟩
  rintro (_ | fuel) enough
  · simp at enough
  · have step := decoded rest
    rw [List.cons_append] at step ⊢
    rw [parseRecords, step]
    exact parses fuel (by simp at enough; omega)
    exact List.cons_ne_nil _ _

/-- A record that is refused ends the loop. -/
theorem refused (taken : front ≠ []) (refuses : Refuses (parseRecord clock loaded) front)
    (rest : List UInt8) : ∃ reason, Parses clock loaded (front ++ rest) (.error reason) := by
  rcases List.exists_cons_of_ne_nil taken with ⟨first, tail, rfl⟩
  rcases refuses rest with ⟨reason, failed⟩
  refine ⟨reason, ?_⟩
  rintro (_ | fuel) enough
  · simp at enough
  · rw [List.cons_append] at failed ⊢
    rw [parseRecords, failed]
    exact List.cons_ne_nil _ _

end Parses

theorem writeString_ne_nil (s : String) : writeString s ≠ [] := by
  rcases writeString_cases s with ⟨first, tail, bytes, -⟩
  rw [bytes]
  exact List.cons_ne_nil _ _

theorem writeEntry_ne_nil (entry : String × RedisObject) : writeEntry entry ≠ [] := by
  rcases entry with ⟨key, value⟩
  cases value <;> exact List.cons_ne_nil _ _

/-! ## The data map -/

theorem parses_entries {clock : ℕ → Clocks} {entries : List (String × RedisObject)}
    (storable : ∀ entry ∈ entries, ShortText entry.1 ∧ Storable entry.2) {loaded : Loaded}
    {rest : List UInt8} {result : Outcome String Loaded}
    (parses : Parses clock (entries.foldl Loaded.addEntry loaded) rest result) :
    Parses clock loaded (entries.flatMap writeEntry ++ rest) result := by
  induction entries generalizing loaded with
  | nil => exact parses
  | cons entry others ih =>
      rcases List.forall_mem_cons.mp storable with ⟨⟨shortKey, value⟩, storable⟩
      rw [List.flatMap_cons, List.append_assoc]
      exact Parses.record (writeEntry_ne_nil entry) (decodes_writeEntry clock loaded shortKey value)
        (ih storable parses)

section Entries

variable {entries : List (String × RedisObject)} {loaded : Loaded} {key : String}

theorem addEntry_expirations (loaded : Loaded) (entry : String × RedisObject) :
    (loaded.addEntry entry).expirations = loaded.expirations ∧
      (loaded.addEntry entry).expiries = loaded.expiries := by
  rcases entry with ⟨key, text | (_ | _)⟩ <;> exact ⟨rfl, rfl⟩

theorem addEntries_expirations (entries : List (String × RedisObject)) (loaded : Loaded) :
    (entries.foldl Loaded.addEntry loaded).expirations = loaded.expirations ∧
      (entries.foldl Loaded.addEntry loaded).expiries = loaded.expiries := by
  induction entries generalizing loaded with
  | nil => exact ⟨rfl, rfl⟩
  | cons entry rest ih =>
      rcases addEntry_expirations loaded entry with ⟨expirations, expiries⟩
      exact ⟨(ih _).1.trans expirations, (ih _).2.trans expiries⟩

theorem lookup_addEntry_of_ne {entry : String × RedisObject} (other : key ≠ entry.1) :
    (loaded.addEntry entry).db.lookup key = loaded.db.lookup key := by
  rcases entry with ⟨key', text | (_ | _)⟩
  · exact Finmap.lookup_insert_of_ne loaded.db other
  · rfl
  · exact Finmap.lookup_insert_of_ne loaded.db other

theorem lookup_addEntry {value : RedisObject} :
    (loaded.addEntry (key, value)).db.lookup key =
      if value = .list [] then loaded.db.lookup key else some value := by
  rcases value with text | (_ | _)
  · exact Finmap.lookup_insert loaded.db
  · rfl
  · exact Finmap.lookup_insert loaded.db

theorem lookup_addEntries_of_notMem (missing : key ∉ entries.map Prod.fst) :
    (entries.foldl Loaded.addEntry loaded).db.lookup key = loaded.db.lookup key := by
  induction entries generalizing loaded with
  | nil => rfl
  | cons entry rest ih =>
      rw [List.map_cons, List.mem_cons, not_or] at missing
      exact (ih missing.2).trans (lookup_addEntry_of_ne missing.1)

/-- After the data records a key is bound to its value, unless that is an empty
list. -/
theorem lookup_addEntries_of_mem (distinct : (entries.map Prod.fst).Nodup) {value : RedisObject}
    (member : (key, value) ∈ entries) :
    (entries.foldl Loaded.addEntry loaded).db.lookup key =
      if value = .list [] then loaded.db.lookup key else some value := by
  induction entries generalizing loaded with
  | nil => cases member
  | cons entry rest ih =>
      rw [List.map_cons, List.nodup_cons] at distinct
      rcases List.mem_cons.mp member with rfl | later
      · exact (lookup_addEntries_of_notMem distinct.1).trans lookup_addEntry
      · have other : key ≠ entry.1 :=
          fun same => distinct.1 (same ▸ List.mem_map_of_mem later)
        rw [List.foldl_cons, ih distinct.2 later, lookup_addEntry_of_ne other]

/-- The data records of a whole map, in any order, bind what the map binds except
empty lists. -/
theorem lookup_addEntries {map : FiniteMap String RedisObject}
    (order : FiniteMap.Traverses entries map) (key : String) :
    (entries.foldl Loaded.addEntry Loaded.empty).db.lookup key =
      (map.lookup key).filter (· ≠ .list []) := by
  cases found : map.lookup key with
  | none => exact lookup_addEntries_of_notMem (order.notMem_keys found)
  | some value =>
      rw [lookup_addEntries_of_mem order.distinct (order.mem_iff.mpr found)]
      by_cases empty : value = .list []
      · rw [if_pos empty, empty]
        rfl
      · rw [if_neg empty, Option.filter_some, if_pos (decide_eq_true empty)]

end Entries

/-! ## The expirations map -/

theorem expiryMillis_lt {expire : Instant} {now : Clocks} {ms : ℕ}
    (computed : expiryMillis expire now = .ok ms) : ms < 2 ^ 64 := by
  unfold expiryMillis at computed
  split at computed
  · cases computed
    exact Nat.mod_lt _ (by decide)
  · cases computed

theorem writeExpiries_cons_eq_ok_iff {clock : ℕ → Clocks} {i : ℕ} {key : String}
    {expire : Instant} {rest : List (String × Instant)} {bytes : List UInt8} :
    writeExpiries clock i ((key, expire) :: rest) = .ok bytes ↔
      ∃ ms records, expiryMillis expire (clock i) = .ok ms ∧
        writeExpiries clock (i + 1) rest = .ok records ∧
          bytes = writeString key ++ [0xFC] ++ leBytes 8 ms ++ records := by
  simp only [writeExpiries, writeExpiry, Outcome.bind_eq_ok_iff, Outcome.pure_eq_ok,
    Outcome.ok.injEq]
  constructor
  · rintro ⟨_, ⟨ms, computed, rfl⟩, records, written, rfl⟩
    exact ⟨ms, records, computed, written, rfl⟩
  · rintro ⟨ms, records, computed, written, rfl⟩
    exact ⟨_, ⟨ms, computed, rfl⟩, records, written, rfl⟩

section Expiries

variable {save : ℕ → Clocks} (load : ℕ → Clocks) {expirations : List (String × Instant)}

theorem expiry_ne_nil (key : String) (ms : ℕ) :
    writeString key ++ [0xFC] ++ leBytes 8 ms ≠ [] := by
  intro empty
  rw [List.append_assoc, List.append_eq_nil_iff] at empty
  exact writeString_ne_nil key empty.1

/-- A reserved key among the expiry records makes the loader fail. -/
theorem parses_expiries_of_reserved {i : ℕ} {bytes : List UInt8}
    (written : writeExpiries save i expirations = .ok bytes)
    (short : ∀ entry ∈ expirations, ShortText entry.1)
    (reserved : ∃ entry ∈ expirations, Reserved entry.1) (loaded : Loaded) :
    ∃ reason, Parses load loaded bytes (.error reason) := by
  induction expirations generalizing i bytes loaded with
  | nil => simp at reserved
  | cons entry rest ih =>
      rcases entry with ⟨key, expire⟩
      rcases writeExpiries_cons_eq_ok_iff.mp written with ⟨ms, records, computed, later, rfl⟩
      rcases List.forall_mem_cons.mp short with ⟨shortKey, short⟩
      by_cases here : Reserved key
      · exact Parses.refused (expiry_ne_nil key ms)
          (refuses_expiry load loaded shortKey here) records
      · rw [List.exists_mem_cons_iff] at reserved
        obtain ⟨reason, parses⟩ := ih later short (reserved.resolve_left here)
          (loaded.insertExpiry key (loadDeadline ms (load loaded.expiries)))
        exact ⟨reason, Parses.record (expiry_ne_nil key ms)
          (decodes_expiry load loaded shortKey here (expiryMillis_lt computed)) parses⟩

/-- Otherwise every key gets the deadline of its record. -/
theorem parses_expiries {i : ℕ} {bytes : List UInt8}
    (written : writeExpiries save i expirations = .ok bytes)
    (short : ∀ entry ∈ expirations, ShortText entry.1)
    (free : ∀ entry ∈ expirations, ¬Reserved entry.1)
    (distinct : (expirations.map Prod.fst).Nodup) (loaded : Loaded) :
    ∃ loaded', Parses load loaded bytes (.ok loaded') ∧ loaded'.db = loaded.db ∧
      (∀ key, key ∉ expirations.map Prod.fst →
        loaded'.expirations.lookup key = loaded.expirations.lookup key) ∧
      ∀ j key expire, expirations[j]? = some (key, expire) →
        ∃ ms, expiryMillis expire (save (i + j)) = .ok ms ∧
          loaded'.expirations.lookup key =
            some (loadDeadline ms (load (loaded.expiries + j))) := by
  induction expirations generalizing i bytes loaded with
  | nil =>
      cases written
      exact ⟨loaded, Parses.nil load loaded, rfl, fun _ _ => rfl, nofun⟩
  | cons entry rest ih =>
      rcases entry with ⟨key, expire⟩
      rcases writeExpiries_cons_eq_ok_iff.mp written with ⟨ms, records, computed, later, rfl⟩
      rcases List.forall_mem_cons.mp short with ⟨shortKey, short⟩
      rcases List.forall_mem_cons.mp free with ⟨freeKey, free⟩
      rw [List.map_cons, List.nodup_cons] at distinct
      obtain ⟨loaded', parses, db, others, deadlines⟩ := ih later short free distinct.2
        (loaded.insertExpiry key (loadDeadline ms (load loaded.expiries)))
      refine ⟨loaded', Parses.record (expiry_ne_nil key ms)
        (decodes_expiry load loaded shortKey freeKey (expiryMillis_lt computed)) parses, db, ?_, ?_⟩
      · intro key' missing
        rw [List.map_cons, List.mem_cons, not_or] at missing
        rw [others key' missing.2]
        exact Finmap.lookup_insert_of_ne loaded.expirations missing.1
      · rintro (_ | j) key' expire' found
        · cases found
          refine ⟨ms, computed, ?_⟩
          rw [others key distinct.1]
          exact Finmap.lookup_insert loaded.expirations
        · rcases deadlines j key' expire' found with ⟨ms', computed', bound⟩
          rw [Nat.add_right_comm] at computed'
          refine ⟨ms', computed', ?_⟩
          rw [bound, Loaded.insertExpiry, Nat.add_right_comm, Nat.add_assoc]

end Expiries

/-! ## The whole file -/

theorem decodes_readHeader : Decodes readHeader (utf8Bytes "REDIS0001") () := by
  have nine := decodes_readExact unexpectedEof (utf8Bytes "REDIS0001")
  rw [← List.append_nil (utf8Bytes "REDIS0001")]
  exact nine.bind (decodes_pure ())

theorem decodes_selector (clock : ℕ → Clocks) (loaded : Loaded) :
    Decodes (parseRecord clock loaded) ([0xFE] ++ writeLength 0) (some loaded) := by
  have length := decodes_readLength (show 0 < 2 ^ 32 by decide)
  exact (decodes_readOne unexpectedEof (0xFE : UInt8)).bind length.bind_pure

/-- The parts of a file. -/
theorem saveRdb_eq_ok_iff {save : ℕ → Clocks} {data : List (String × RedisObject)}
    {expirations : List (String × Instant)} {bytes : List UInt8} :
    saveRdb save data expirations = .ok bytes ↔
      ∃ records, writeExpiries save 0 expirations = .ok records ∧
        bytes = utf8Bytes "REDIS0001" ++
          ([0xFE] ++ writeLength 0 ++ data.flatMap writeEntry ++ records) := by
  simp only [saveRdb, writeDb, Outcome.bind_eq_ok_iff, Outcome.pure_eq_ok, Outcome.ok.injEq]
  constructor
  · rintro ⟨_, ⟨records, written, rfl⟩, rfl⟩
    exact ⟨records, written, rfl⟩
  · rintro ⟨records, written, rfl⟩
    exact ⟨_, ⟨records, written, rfl⟩, rfl⟩

/-- Loading a file comes down to its expiry records. -/
theorem parse_saveRdb {save : ℕ → Clocks} (load : ℕ → Clocks)
    {data : List (String × RedisObject)} {expirations : List (String × Instant)}
    {bytes : List UInt8} (written : saveRdb save data expirations = .ok bytes)
    (storable : ∀ entry ∈ data, ShortText entry.1 ∧ Storable entry.2) :
    ∃ records, writeExpiries save 0 expirations = .ok records ∧
      ∀ result, Parses load (data.foldl Loaded.addEntry Loaded.empty) records result →
        parse load bytes = result := by
  rcases saveRdb_eq_ok_iff.mp written with ⟨records, expiries, rfl⟩
  refine ⟨records, expiries, fun result parses => ?_⟩
  rw [parse, decodes_readHeader, Outcome.ok_bind, List.append_assoc]
  exact Parses.record (List.cons_ne_nil _ _) (decodes_selector load Loaded.empty)
    (parses_entries storable parses) _ le_rfl

/-- The maps fit the format: strings, lists of strings, and lengths in 32 bits. -/
structure Fits (db : DB) : Prop where
  entries : ∀ key value, db.data.lookup key = some value → ShortText key ∧ Storable value
  keys : ∀ key deadline, db.expirations.lookup key = some deadline → ShortText key

section Maps

variable {db : DB} {data : List (String × RedisObject)} {expirations : List (String × Instant)}
  {save : ℕ → Clocks} {bytes : List UInt8}

theorem Fits.of_traverses (dataOrder : FiniteMap.Traverses data db.data)
    (deadlineOrder : FiniteMap.Traverses expirations db.expirations)
    (entries : ∀ entry ∈ data, ShortText entry.1 ∧ Storable entry.2)
    (keys : ∀ entry ∈ expirations, ShortText entry.1) : Fits db where
  entries key value found := entries (key, value) (dataOrder.mem_iff.mpr found)
  keys key deadline found := keys (key, deadline) (deadlineOrder.mem_iff.mpr found)

/-- A snapshot without reserved keys among the deadlines is accepted, and both maps
are determined by what was saved. -/
theorem exists_parse_of_free (fits : Fits db) (dataOrder : FiniteMap.Traverses data db.data)
    (deadlineOrder : FiniteMap.Traverses expirations db.expirations)
    (written : saveRdb save data expirations = .ok bytes) (load : ℕ → Clocks)
    (free : ∀ key, Reserved key → db.expirations.lookup key = none) :
    ∃ loaded, parse load bytes = .ok loaded ∧
      (∀ key, loaded.db.lookup key = (db.data.lookup key).filter (· ≠ .list [])) ∧
      (∀ key, db.expirations.lookup key = none → loaded.expirations.lookup key = none) ∧
      ∀ i key deadline, expirations[i]? = some (key, deadline) →
        ∃ ms, expiryMillis deadline (save i) = .ok ms ∧
          loaded.expirations.lookup key = some (loadDeadline ms (load i)) := by
  obtain ⟨records, expiries, loads⟩ := parse_saveRdb load written
    fun entry member => fits.entries _ _ (dataOrder.mem_iff.mp member)
  have short : ∀ entry ∈ expirations, ShortText entry.1 :=
    fun entry member => fits.keys _ _ (deadlineOrder.mem_iff.mp member)
  have unreserved := (deadlineOrder.forall_lookup_eq_none_iff Reserved).mp free
  rcases addEntries_expirations data Loaded.empty with ⟨noDeadlines, noExpiries⟩
  obtain ⟨loaded, parses, sameData, others, deadlines⟩ := parses_expiries load expiries short
    unreserved deadlineOrder.distinct (data.foldl Loaded.addEntry Loaded.empty)
  refine ⟨loaded, loads _ parses, ?_, ?_, ?_⟩
  · intro key
    rw [sameData]
    exact lookup_addEntries dataOrder key
  · intro key missing
    rw [others key (deadlineOrder.notMem_keys missing), noDeadlines]
    exact Finmap.lookup_empty key
  · intro i key deadline found
    have record := deadlines i key deadline found
    rwa [noExpiries, Loaded.empty, Nat.zero_add] at record

/-- The loader accepts a snapshot exactly when no reserved key has a deadline. -/
theorem exists_parse_eq_ok_iff (fits : Fits db) (dataOrder : FiniteMap.Traverses data db.data)
    (deadlineOrder : FiniteMap.Traverses expirations db.expirations)
    (written : saveRdb save data expirations = .ok bytes) (load : ℕ → Clocks) :
    (∃ loaded, parse load bytes = .ok loaded) ↔
      ∀ key, Reserved key → db.expirations.lookup key = none := by
  constructor
  · rintro ⟨loaded, accepted⟩ key reserved
    by_contra present
    rcases Option.ne_none_iff_exists'.mp present with ⟨deadline, found⟩
    obtain ⟨records, expiries, loads⟩ := parse_saveRdb load written
      fun entry member => fits.entries _ _ (dataOrder.mem_iff.mp member)
    obtain ⟨reason, parses⟩ := parses_expiries_of_reserved load expiries
      (fun entry member => fits.keys _ _ (deadlineOrder.mem_iff.mp member))
      ⟨_, deadlineOrder.mem_iff.mpr found, reserved⟩ _
    cases accepted.symm.trans (loads _ parses)
  · intro free
    obtain ⟨loaded, accepted, -⟩ :=
      exists_parse_of_free fits dataOrder deadlineOrder written load free
    exact ⟨loaded, accepted⟩

/-- A deadline of the monotonic clock on the wall clock, cut to a millisecond.
`offset` is how far the wall clock is ahead, and `saved` is the time of saving. -/
def savedDeadline (offset : ℤ) (deadline saved : Instant) : SystemTime :=
  ((max deadline saved : ℕ) + offset) / 1000000 * 1000000

theorem systemDeadline_eq {now : Clocks} {offset : ℤ} (ahead : now.system = now.instant + offset)
    (deadline : Instant) :
    systemDeadline deadline now = (max deadline now.instant : ℕ) + offset := by
  unfold systemDeadline
  rw [ahead]
  split
  next future =>
    rw [Nat.max_eq_left future.le, Nat.cast_sub future.le, add_right_comm, add_sub_cancel]
  next past => rw [Nat.max_eq_right (Nat.not_lt.mp past)]

/-- Going through whole milliseconds rounds a time down. -/
theorem toNat_millis_sub {wall : ℤ} (epoch : 0 ≤ wall) (inRange : wall < 2 ^ 64 * 1000000)
    (now : ℤ) :
    (((wall.toNat / 1000000 % 2 ^ 64 : ℕ) : ℤ) * 1000000 - now).toNat =
      (max 0 (wall / 1000000 * 1000000 - now)).toNat := by
  rw [Nat.mod_eq_of_lt (by omega)]
  omega

/-- The deadline that is written and loaded again. -/
theorem loadDeadline_expiryMillis {deadline : Instant} {now : Clocks} {offset : ℤ} {ms : ℕ}
    (ahead : now.system = now.instant + offset)
    (inRange : (max deadline now.instant : ℕ) + offset < 2 ^ 64 * 1000000)
    (computed : expiryMillis deadline now = .ok ms) (load : Clocks) :
    loadDeadline ms load = load.instant +
      (max 0 (savedDeadline offset deadline now.instant - load.system)).toNat := by
  unfold expiryMillis at computed
  rw [systemDeadline_eq ahead] at computed
  split at computed
  next range =>
    cases computed
    rw [loadDeadline, savedDeadline, toNat_millis_sub range.1 inRange]
  next => cases computed

/-- A snapshot never loads to wrong contents: if the loader accepts it, the data
is the saved data without empty lists, exactly the saved keys have deadlines, and
each deadline is as far from the load time as its saved wall-clock millisecond is
from the wall clock then. -/
theorem load_save_contents (fits : Fits db) (dataOrder : FiniteMap.Traverses data db.data)
    (deadlineOrder : FiniteMap.Traverses expirations db.expirations)
    (written : saveRdb save data expirations = .ok bytes) {offset : ℤ}
    (ahead : ∀ i, (save i).system = (save i).instant + offset)
    (inRange : ∀ i key deadline, expirations[i]? = some (key, deadline) →
      (max deadline (save i).instant : ℕ) + offset < 2 ^ 64 * 1000000)
    {load : ℕ → Clocks} {loaded : Loaded} (accepted : parse load bytes = .ok loaded) :
    (∀ key, loaded.db.lookup key = (db.data.lookup key).filter (· ≠ .list [])) ∧
    (∀ key, (loaded.expirations.lookup key).isSome = (db.expirations.lookup key).isSome) ∧
    ∀ i key deadline, expirations[i]? = some (key, deadline) →
      loaded.expirations.lookup key = some ((load i).instant +
        (max 0 (savedDeadline offset deadline (save i).instant - (load i).system)).toNat) := by
  have free := (exists_parse_eq_ok_iff fits dataOrder deadlineOrder written load).mp
    ⟨loaded, accepted⟩
  obtain ⟨loaded', accepted', sameData, others, deadlines⟩ :=
    exists_parse_of_free fits dataOrder deadlineOrder written load free
  cases accepted.symm.trans accepted'
  refine ⟨sameData, ?_, ?_⟩
  · intro key
    cases found : db.expirations.lookup key with
    | none => rw [others key found]
    | some deadline =>
        rcases List.getElem?_of_mem (deadlineOrder.mem_iff.mpr found) with ⟨i, record⟩
        rcases deadlines i key deadline record with ⟨ms, -, bound⟩
        rw [bound]
        rfl
  · intro i key deadline record
    rcases deadlines i key deadline record with ⟨ms, computed, bound⟩
    rw [bound, loadDeadline_expiryMillis (ahead i) (inRange i key deadline record) computed]

/-- A string with a deadline ahead, a list with one that has passed and an empty
list. -/
theorem load_save_contents_mixed :
    let data := [("s", .string "v"), ("l", .list [.string "a", .string "b"]), ("e", .list [])]
    let expirations := [("s", 5400000), ("l", 7)]
    ∃ bytes loaded,
      saveRdb (fun _ => ⟨1000000, 2000000⟩) data expirations = .ok bytes ∧
      parse (fun _ => ⟨100, 4000000⟩) bytes = .ok loaded ∧
      loaded.db.lookup "s" = some (.string "v") ∧
      loaded.db.lookup "l" = some (.list [.string "a", .string "b"]) ∧
      loaded.db.lookup "e" = none ∧
      loaded.expirations.lookup "s" = some 2000100 ∧
      loaded.expirations.lookup "l" = some 100 := by
  intro data expirations
  have dataOrder := FiniteMap.traverses_ofList (show (data.map Prod.fst).Nodup by decide)
  have deadlineOrder :=
    FiniteMap.traverses_ofList (show (expirations.map Prod.fst).Nodup by decide)
  have fits : Fits ⟨FiniteMap.ofList data, FiniteMap.ofList expirations⟩ :=
    .of_traverses dataOrder deadlineOrder (by decide) (by decide)
  obtain ⟨bytes, written⟩ :
      ∃ bytes, saveRdb (fun _ => ⟨1000000, 2000000⟩) data expirations = .ok bytes := ⟨_, rfl⟩
  obtain ⟨loaded, accepted⟩ := (exists_parse_eq_ok_iff fits dataOrder deadlineOrder written
    fun _ => ⟨100, 4000000⟩).mpr ((deadlineOrder.forall_lookup_eq_none_iff _).mpr (by decide))
  have ahead : (2000000 : ℤ) = (1000000 : ℕ) + 1000000 := rfl
  have inRange : ∀ (i : ℕ) key deadline, expirations[i]? = some (key, deadline) →
      ((max deadline 1000000 : ℕ) : ℤ) + 1000000 < 2 ^ 64 * 1000000 := by
    intro i key deadline found
    have small : ∀ entry ∈ expirations,
      ((max entry.2 1000000 : ℕ) : ℤ) + 1000000 < 2 ^ 64 * 1000000 := by decide
    exact small (key, deadline) (List.mem_of_getElem? found)
  obtain ⟨contents, -, deadlines⟩ :=
    load_save_contents fits dataOrder deadlineOrder written (fun _ => ahead) inRange accepted
  refine ⟨bytes, loaded, written, accepted, contents "s", contents "l", contents "e", ?_, ?_⟩
  · exact (deadlines 0 "s" 5400000 rfl).trans (by decide)
  · exact (deadlines 1 "l" 7 rfl).trans (by decide)

end Maps

end Ember.Rdb
