import Ember.Base.Word
import Ember.Database.Core

/-!
# The search for a port

A new server binds a listener to the requested port and moves on to the next port
as long as the address is in use.  The port is a 16-bit integer and the loop has no
bound of its own, so the search keeps to the ports from the requested one upwards
exactly when one of them is not in use.
-/

namespace Ember.Listener

open Ember.Base Ember.Database

/-- The kinds of input and output errors that the search tells apart. -/
inductive ErrorKind where
  | addrInUse
  | other
  deriving DecidableEq, Repr

/-- One link of an error; only an input or output error has a kind. -/
structure Cause where
  message : String
  kind : Option ErrorKind
  deriving DecidableEq, Repr

/-- An error with its causes, from the outermost context inwards. -/
abbrev Chain := List Cause

/-- Wrap an error in a further context. -/
def context (message : String) (e : Chain) : Chain :=
  ⟨message, none⟩ :: e

/-- Some cause of the error is an address in use. -/
def isInUse (e : Chain) : Bool :=
  e.any fun cause => cause.kind = some .addrInUse

/-- A host and a port. -/
structure SocketAddr where
  host : String
  port : UInt16
  deriving DecidableEq, Repr

/-- The address the server listens on; its text always parses. -/
def localAddr (port : UInt16) : SocketAddr :=
  ⟨"127.0.0.1", port⟩

/-- What is needed to start listening. -/
structure Server where
  addr : SocketAddr
  db : DB

/-- What one round of the search comes to. -/
inductive Round where
  | done (result : Outcome Chain Server)
  | next (port : UInt16)

section

variable (target : Target) (buildListener : SocketAddr → Except Chain Unit) (db : DB)

/-- One round of the search: bind a listener to the port. -/
def tryPort (port : UInt16) : Round :=
  let addr := localAddr port
  match buildListener addr with
  | .ok _ => .done (.ok ⟨addr, db⟩)
  | .error e =>
      if isInUse e then
        match target.addU16 port 1 with
        | .ok port => .next port
        | .error e => .done (.error e)
        | .panic => .done .panic
      else .done (.error (context ("failed to bind to port " ++ port.toNat.repr) e))

/-- A new server over the maps loaded from disk, when its loop ends within the
given number of rounds. -/
def Server.new : ℕ → UInt16 → Option (Outcome Chain Server)
  | 0, _ => none
  | fuel + 1, port =>
      match tryPort target buildListener db port with
      | .done result => some result
      | .next port => Server.new fuel port

/-- The ports that are tried in that number of rounds. -/
def tried : ℕ → UInt16 → List UInt16
  | 0, _ => []
  | fuel + 1, port =>
      port ::
        match tryPort target buildListener db port with
        | .done _ => []
        | .next port => tried fuel port

end

/-! ## What a search is for -/

/-- Another application listens on the port. -/
def InUse (buildListener : SocketAddr → Except Chain Unit) (port : ℕ) : Prop :=
  ∃ e, buildListener (localAddr (.ofNat port)) = .error e ∧ isInUse e = true

/-- The ports from `first` to `last`. -/
def portsTo (first last : ℕ) : List ℕ :=
  List.range' first (last + 1 - first)

/-- The search for a port tries the requested port and those above it, in order, up
to the first one that is not in use, and its result is what binding that port gives;
it fails when there is none. -/
structure SearchesUpward (target : Target) (buildListener : SocketAddr → Except Chain Unit)
    (db : DB) (port : UInt16) : Prop where
  found : ∀ q : UInt16, port ≤ q → buildListener (localAddr q) = .ok () →
    (∀ i, port.toNat ≤ i → i < q.toNat → InUse buildListener i) →
    ∃ fuel, Server.new target buildListener db fuel port = some (.ok ⟨localAddr q, db⟩) ∧
      (tried target buildListener db fuel port).map UInt16.toNat = portsTo port.toNat q.toNat
  refused : ∀ (q : UInt16) (e : Chain), port ≤ q → buildListener (localAddr q) = .error e →
    isInUse e = false → (∀ i, port.toNat ≤ i → i < q.toNat → InUse buildListener i) →
    ∃ fuel, Server.new target buildListener db fuel port =
        some (.error (context ("failed to bind to port " ++ q.toNat.repr) e)) ∧
      (tried target buildListener db fuel port).map UInt16.toNat = portsTo port.toNat q.toNat
  exhausted : (∀ i, port.toNat ≤ i → i < 2 ^ 16 → InUse buildListener i) →
    ∃ fuel e, Server.new target buildListener db fuel port = some (.error e) ∧
      (tried target buildListener db fuel port).map UInt16.toNat =
        portsTo port.toNat (2 ^ 16 - 1)
  not_below : ∀ fuel server, Server.new target buildListener db fuel port = some (.ok server) →
    port ≤ server.addr.port

/-! ## The rounds -/

section

variable {target : Target} {buildListener : SocketAddr → Except Chain Unit} {db : DB}

/-- A port in use below the last one leads to the port above it. -/
theorem tryPort_inUse {port : UInt16} (used : InUse buildListener port.toNat)
    (below : port.toNat + 1 < 2 ^ 16) :
    ∃ next : UInt16, tryPort target buildListener db port = .next next ∧
      next.toNat = port.toNat + 1 := by
  rcases used with ⟨e, refused, inUse⟩
  rw [UInt16.ofNat_toNat] at refused
  rcases @Target.addU16_exact Chain target port 1 below with ⟨next, added, value⟩
  refine ⟨next, ?_, value⟩
  simp only [tryPort, refused, inUse, if_true, added]

theorem tryPort_found {port : UInt16} (free : buildListener (localAddr port) = .ok ()) :
    tryPort target buildListener db port = .done (.ok ⟨localAddr port, db⟩) := by
  simp only [tryPort, free]

theorem tryPort_refused {port : UInt16} {e : Chain}
    (refused : buildListener (localAddr port) = .error e) (other : isInUse e = false) :
    tryPort target buildListener db port =
      .done (.error (context ("failed to bind to port " ++ port.toNat.repr) e)) := by
  simp only [tryPort, refused, other, Bool.false_eq_true, if_false]

/-- Above the last port the build decides: the search panics or goes on with
port 0. -/
theorem tryPort_last {port : UInt16} (used : InUse buildListener port.toNat)
    (last : port.toNat + 1 = 2 ^ 16) :
    tryPort target buildListener db port =
      if target.overflowChecks then .done .panic else .next 0 := by
  rcases used with ⟨e, refused, inUse⟩
  rw [UInt16.ofNat_toNat] at refused
  have overflow : 2 ^ 16 ≤ port.toNat + (1 : UInt16).toNat := last.ge
  have wrapped : port + 1 = 0 := by
    apply UInt16.toNat_inj.mp
    rw [UInt16.toNat_add]
    exact (congrArg (· % 2 ^ 16) last).trans (Nat.mod_self _)
  cases checks : target.overflowChecks with
  | true => simp only [tryPort, refused, inUse, if_true, target.addU16_checked checks overflow]
  | false =>
      simp only [tryPort, refused, inUse, if_true, target.addU16_wrapping checks overflow, wrapped]
      rfl

/-! ## The search -/

/-- As long as ports are in use the search climbs. -/
theorem climb (count : ℕ) {port : UInt16} {q : UInt16} (reached : q.toNat = port.toNat + count)
    (used : ∀ i, port.toNat ≤ i → i < q.toNat → InUse buildListener i) (fuel : ℕ) :
    Server.new target buildListener db (fuel + count) port =
        Server.new target buildListener db fuel q ∧
      (tried target buildListener db (fuel + count) port).map UInt16.toNat =
        List.range' port.toNat count ++
          (tried target buildListener db fuel q).map UInt16.toNat := by
  induction count generalizing port with
  | zero =>
      rw [Nat.add_zero] at reached
      rw [UInt16.toNat_inj.mp reached]
      exact ⟨rfl, rfl⟩
  | succ count ih =>
      have below := UInt16.toNat_lt q
      have first := used port.toNat le_rfl (by omega)
      rcases @tryPort_inUse target buildListener db port first (by omega) with ⟨next, moved, value⟩
      have above : ∀ i, next.toNat ≤ i → i < q.toNat → InUse buildListener i := by
        intro i lower upper
        exact used i (by omega) upper
      rcases ih (by omega) above with ⟨result, ports⟩
      rw [← Nat.add_assoc, Server.new, tried, moved, List.range'_succ]
      exact ⟨result, by rw [List.map_cons, ports, value, List.cons_append]⟩

/-- The rounds from a port up to one at which the search ends. -/
theorem search_ends {port q : UInt16} {result : Outcome Chain Server} (upward : port ≤ q)
    (used : ∀ i, port.toNat ≤ i → i < q.toNat → InUse buildListener i)
    (ends : tryPort target buildListener db q = .done result) :
    Server.new target buildListener db (1 + (q.toNat - port.toNat)) port = some result ∧
      (tried target buildListener db (1 + (q.toNat - port.toNat)) port).map UInt16.toNat =
        portsTo port.toNat q.toNat := by
  have upward : port.toNat ≤ q.toNat := UInt16.le_iff_toNat_le.mp upward
  have reached : q.toNat = port.toNat + (q.toNat - port.toNat) := by omega
  rcases @climb target buildListener db _ port q reached used 1 with ⟨last, ports⟩
  constructor
  · rw [last, Server.new, ends]
  · have count : q.toNat + 1 - port.toNat = q.toNat - port.toNat + 1 := Nat.sub_add_comm upward
    rw [ports, tried, ends, portsTo, count, List.range'_concat, Nat.one_mul,
      Nat.add_sub_cancel' upward]
    rfl

theorem length_tried_le (fuel : ℕ) (port : UInt16) :
    (tried target buildListener db fuel port).length ≤ fuel := by
  induction fuel generalizing port with
  | zero => exact Nat.le_refl 0
  | succ fuel ih =>
      rw [tried, List.length_cons]
      apply Nat.succ_le_succ
      cases tryPort target buildListener db port with
      | done result => exact Nat.zero_le fuel
      | next port => exact ih port

/-- More rounds do not change a result. -/
theorem new_mono {fuel : ℕ} {port : UInt16} {result : Outcome Chain Server}
    (ended : Server.new target buildListener db fuel port = some result) (more : ℕ) :
    Server.new target buildListener db (fuel + more) port = some result := by
  induction fuel generalizing port with
  | zero => cases ended
  | succ fuel ih =>
      rw [Nat.add_right_comm, Server.new]
      rw [Server.new] at ended
      cases round : tryPort target buildListener db port with
      | done _ =>
          rw [round] at ended
          exact ended
      | next port =>
          rw [round] at ended
          exact ih ended

theorem new_unique {fuel fuel' : ℕ} {port : UInt16} {result result' : Outcome Chain Server}
    (ended : Server.new target buildListener db fuel port = some result)
    (ended' : Server.new target buildListener db fuel' port = some result') :
    result = result' := by
  have first := new_mono ended fuel'
  rw [Nat.add_comm, new_mono ended' fuel] at first
  exact (Option.some.inj first).symm

/-- When all ports from the requested one upwards are in use, the search does not
fail within them. -/
theorem not_exhausted {port : UInt16}
    (used : ∀ i, port.toNat ≤ i → i < 2 ^ 16 → InUse buildListener i) {fuel : ℕ} {e : Chain}
    (ended : Server.new target buildListener db fuel port = some (.error e)) :
    (tried target buildListener db fuel port).map UInt16.toNat ≠
      portsTo port.toNat (2 ^ 16 - 1) := by
  intro ports
  have bound := UInt16.toNat_lt port
  -- All of these ports have been tried, so there was a round at the last one.
  have enough : 2 ^ 16 - port.toNat ≤ fuel := by
    have counted := congrArg List.length ports
    rw [List.length_map, portsTo, List.length_range'] at counted
    have rounds := @length_tried_le target buildListener db fuel port
    omega
  obtain ⟨rest, rfl⟩ : ∃ rest, fuel = (rest + 1) + (2 ^ 16 - 1 - port.toNat) :=
    ⟨fuel - (2 ^ 16 - port.toNat), by omega⟩
  have reached : (65535 : UInt16).toNat = port.toNat + (2 ^ 16 - 1 - port.toNat) := by
    show 65535 = _
    omega
  have lastUsed : InUse buildListener (65535 : UInt16).toNat :=
    used 65535 (by omega) (by decide)
  rcases climb _ reached (fun i lower upper => used i lower (upper.trans (by decide)))
    (rest + 1) with ⟨result, all⟩
  rw [result, Server.new, tryPort_last lastUsed rfl] at ended
  rw [all, tried, tryPort_last lastUsed rfl] at ports
  cases checks : target.overflowChecks with
  | true =>
      rw [checks] at ended
      cases ended
  | false =>
      rw [checks] at ended ports
      -- After the last port, port 0 is tried.
      cases rest with
      | zero => cases ended
      | succ rest =>
          have counted := congrArg List.length ports
          rw [List.length_append, List.length_range', List.map_cons, List.length_cons, portsTo,
            List.length_range', List.length_map] at counted
          have again : 0 < (tried target buildListener db (rest + 1) 0).length := by
            rw [tried]
            exact Nat.succ_pos _
          simp only [Bool.false_eq_true, if_false] at counted
          omega

end

/-- The first port from the requested one upwards that is not in use. -/
theorem exists_first {buildListener : SocketAddr → Except Chain Unit} {port : UInt16}
    (available : ∃ i, port.toNat ≤ i ∧ i < 2 ^ 16 ∧ ¬InUse buildListener i) :
    ∃ q : UInt16, port ≤ q ∧ ¬InUse buildListener q.toNat ∧
      ∀ i, port.toNat ≤ i → i < q.toNat → InUse buildListener i := by
  classical
  rcases Nat.find_spec available with ⟨lower, upper, notUsed⟩
  have value : (UInt16.ofNat (Nat.find available)).toNat = Nat.find available :=
    UInt16.toNat_ofNat_of_lt upper
  refine ⟨.ofNat (Nat.find available), UInt16.le_iff_toNat_le.mpr (lower.trans value.ge), ?_, ?_⟩
  · rw [value]
    exact notUsed
  · intro i above below
    rw [value] at below
    have least := Nat.find_min available below
    by_contra free
    exact least ⟨above, below.trans upper, free⟩

/-- The search for a port ends, with the least port that can be bound or the error
of the first one that cannot be bound for another reason, when one of the ports
from the requested one upwards is not in use.  Otherwise it leaves the range of
the ports: it panics or goes on at port 0. -/
theorem new_searchesUpward_iff (target : Target)
    (buildListener : SocketAddr → Except Chain Unit) (db : DB) (port : UInt16) :
    SearchesUpward target buildListener db port ↔
      ∃ i, port.toNat ≤ i ∧ i < 2 ^ 16 ∧ ¬InUse buildListener i := by
  constructor
  · intro searches
    by_contra unavailable
    have used : ∀ i, port.toNat ≤ i → i < 2 ^ 16 → InUse buildListener i := by
      intro i lower upper
      by_contra free
      exact unavailable ⟨i, lower, upper, free⟩
    rcases searches.exhausted used with ⟨fuel, e, ended, ports⟩
    exact not_exhausted used ended ports
  · intro available
    constructor
    · intro q upward free used
      exact ⟨_, search_ends upward used (tryPort_found free)⟩
    · intro q e upward refused other used
      exact ⟨_, search_ends upward used (tryPort_refused refused other)⟩
    · intro used
      rcases available with ⟨i, lower, upper, free⟩
      exact absurd (used i lower upper) free
    · intro fuel server ended
      rcases exists_first available with ⟨q, upward, notUsed, used⟩
      cases bound : buildListener (localAddr q) with
      | ok _ =>
          cases new_unique ended (search_ends upward used (tryPort_found bound)).1
          exact upward
      | error e =>
          have other : isInUse e = false := by
            apply Bool.eq_false_iff.mpr
            intro inUse
            apply notUsed
            exact ⟨e, by rwa [UInt16.ofNat_toNat], inUse⟩
          cases new_unique ended (search_ends upward used (tryPort_refused bound other)).1

/-- With the last port in use, the search for it panics, or takes port 0, which is
below the requested one. -/
theorem new_leaves_range :
    let inUse : Chain := [⟨"bind() to 127.0.0.1:65535 failed", none⟩,
      ⟨"Address already in use (os error 98)", some .addrInUse⟩]
    let buildListener : SocketAddr → Except Chain Unit := fun addr =>
      if addr.port = 65535 then .error inUse else .ok ()
    ¬SearchesUpward ⟨true, 32⟩ buildListener DB.newInMemory 65535 ∧
      ¬SearchesUpward ⟨false, 32⟩ buildListener DB.newInMemory 65535 ∧
      Server.new ⟨true, 32⟩ buildListener DB.newInMemory 1 65535 = some .panic ∧
      Server.new ⟨false, 32⟩ buildListener DB.newInMemory 2 65535 =
        some (.ok ⟨localAddr 0, DB.newInMemory⟩) := by
  intro inUse buildListener
  have panics : Server.new ⟨true, 32⟩ buildListener DB.newInMemory 1 65535 = some .panic := rfl
  have wraps : Server.new ⟨false, 32⟩ buildListener DB.newInMemory 2 65535 =
      some (.ok ⟨localAddr 0, DB.newInMemory⟩) := rfl
  have used : ∀ i, (65535 : UInt16).toNat ≤ i → i < 2 ^ 16 → InUse buildListener i := by
    intro i lower upper
    have last : i = 65535 := by
      have lower : 65535 ≤ i := lower
      omega
    subst last
    exact ⟨inUse, rfl, rfl⟩
  refine ⟨?_, ?_, panics, wraps⟩
  · intro searches
    rcases searches.exhausted used with ⟨fuel, e, ended, -⟩
    cases new_unique panics ended
  · intro searches
    have below := searches.not_below 2 _ wraps
    exact absurd below (by decide)

end Ember.Listener
