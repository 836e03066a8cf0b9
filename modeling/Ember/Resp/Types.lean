import Ember.Base.Utf8

/-!
# RESP values and their encoding

The values of the RESP protocol, their plain encoder `toBytes`, and the
streaming encoder `writeTo`, which hands the encoding to a writer piece by
piece and has precomputed byte strings for the most common replies.
-/

namespace Ember.Resp

open Ember.Base

universe u

/-- A RESP value. -/
inductive RespType where
  | simpleString (text : String)
  | simpleError (text : String)
  | integer (value : Int64)
  | bulkString (text : String)
  | array (items : List RespType)
  | null
  | boolean (value : Bool)
  deriving Repr

namespace RespType

/-- Structural induction, with the hypothesis for every item of an array. -/
@[elab_as_elim, induction_eliminator]
theorem induction {motive : RespType → Prop}
    (simpleString : ∀ text, motive (simpleString text))
    (simpleError : ∀ text, motive (simpleError text))
    (integer : ∀ value, motive (integer value))
    (bulkString : ∀ text, motive (bulkString text))
    (array : ∀ items, (∀ item ∈ items, motive item) → motive (array items))
    (null : motive null)
    (boolean : ∀ value, motive (boolean value)) (resp : RespType) : motive resp :=
  @RespType.rec motive (fun items => ∀ item ∈ items, motive item)
    simpleString simpleError integer bulkString array null boolean
    (fun _ member => absurd member List.not_mem_nil)
    (fun _ _ first rest item member => by
      rcases List.mem_cons.mp member with equal | inRest
      · exact equal ▸ first
      · exact rest item inRest)
    resp

/-! ## The plain encoder -/

mutual

/-- The wire text of a value. -/
protected def toString : RespType → String
  | simpleString text => "+" ++ text ++ "\r\n"
  | integer value => ":" ++ value.toInt.repr ++ "\r\n"
  | bulkString text => "$" ++ text.utf8ByteSize.repr ++ "\r\n" ++ text ++ "\r\n"
  | array items => "*" ++ items.length.repr ++ "\r\n" ++ itemsToString items
  | null => "_\r\n"
  | boolean value => "#" ++ (if value then "t" else "f") ++ "\r\n"
  | simpleError text => "-" ++ text ++ "\r\n"

/-- The wire texts of the items of an array, one after another. -/
def itemsToString : List RespType → String
  | [] => ""
  | item :: items => item.toString ++ itemsToString items

end

/-- The wire bytes of a value. -/
def toBytes (resp : RespType) : List UInt8 :=
  utf8Bytes resp.toString

/-- The wire bytes of the items of an array. -/
def itemsToBytes (items : List RespType) : List UInt8 :=
  utf8Bytes (itemsToString items)

/-! ## The streaming encoder -/

/-- The reply of a command that writes.  This one and the next are encoded in advance. -/
def respOk : List UInt8 := utf8Bytes "+Ok\r\n"

/-- The reply to PING. -/
def respPong : List UInt8 := utf8Bytes "+Pong\r\n"

/-- The reply for a missing key. -/
def respNil : List UInt8 := utf8Bytes "$3\r\nnil\r\n"

/-- The reply to a command that is queued. -/
def respQueued : List UInt8 := utf8Bytes "+QUEUED\r\n"

/-- The end of a line. -/
def respCrlf : List UInt8 := utf8Bytes "\r\n"

section

variable {W : Type u} (writeAll : List UInt8 → W → W)

mutual

/-- Write the encoding of a value to a writer that does not fail. -/
def writeTo : RespType → W → W
  | simpleString text, w =>
      if text = "Ok" then writeAll respOk w
      else if text = "Pong" then writeAll respPong w
      else if text = "QUEUED" then writeAll respQueued w
      else writeAll respCrlf (writeAll (utf8Bytes text) (writeAll (utf8Bytes "+") w))
  | simpleError text, w =>
      writeAll respCrlf (writeAll (utf8Bytes text) (writeAll (utf8Bytes "-") w))
  | integer value, w =>
      writeAll respCrlf (writeAll (utf8Bytes value.toInt.repr) (writeAll (utf8Bytes ":") w))
  | bulkString text, w =>
      if text = "nil" then writeAll respNil w
      else
        writeAll respCrlf (writeAll (utf8Bytes text)
          (writeAll respCrlf (writeAll (utf8Bytes text.utf8ByteSize.repr)
            (writeAll (utf8Bytes "$") w))))
  | array items, w =>
      writeItemsTo items
        (writeAll respCrlf (writeAll (utf8Bytes items.length.repr) (writeAll (utf8Bytes "*") w)))
  | null, w => writeAll (utf8Bytes "_\r\n") w
  | boolean value, w =>
      if value then writeAll (utf8Bytes "#t\r\n") w else writeAll (utf8Bytes "#f\r\n") w

/-- Write the items of an array one after another. -/
def writeItemsTo : List RespType → W → W
  | [], w => w
  | item :: items, w => writeItemsTo items (writeTo item w)

end

end

/-! ## Byte-level equations -/

/-- The end of a line. -/
def crlf : List UInt8 := [13, 10]

@[simp]
theorem utf8Bytes_crlf : utf8Bytes "\r\n" = crlf :=
  rfl

theorem toBytes_simpleString (text : String) :
    (simpleString text).toBytes = 43 :: utf8Bytes text ++ crlf := by
  simp only [toBytes, RespType.toString, utf8Bytes_append, utf8Bytes_crlf]
  rfl

theorem toBytes_simpleError (text : String) :
    (simpleError text).toBytes = 45 :: utf8Bytes text ++ crlf := by
  simp only [toBytes, RespType.toString, utf8Bytes_append, utf8Bytes_crlf]
  rfl

theorem toBytes_integer (value : Int64) :
    (integer value).toBytes = 58 :: utf8Bytes value.toInt.repr ++ crlf := by
  simp only [toBytes, RespType.toString, utf8Bytes_append, utf8Bytes_crlf]
  rfl

theorem toBytes_bulkString (text : String) :
    (bulkString text).toBytes =
      36 :: utf8Bytes (utf8Bytes text).length.repr ++ crlf ++ utf8Bytes text ++ crlf := by
  simp only [toBytes, RespType.toString, utf8Bytes_append, utf8Bytes_crlf]
  rfl

theorem toBytes_array (items : List RespType) :
    (array items).toBytes =
      42 :: utf8Bytes items.length.repr ++ crlf ++ itemsToBytes items := by
  simp only [toBytes, itemsToBytes, RespType.toString, utf8Bytes_append, utf8Bytes_crlf]
  rfl

theorem toBytes_null : null.toBytes = 95 :: crlf :=
  rfl

theorem toBytes_boolean (value : Bool) :
    (boolean value).toBytes = [35, if value then 116 else 102] ++ crlf := by
  cases value <;> rfl

@[simp]
theorem itemsToBytes_nil : itemsToBytes [] = [] :=
  rfl

@[simp]
theorem itemsToBytes_cons (item : RespType) (items : List RespType) :
    itemsToBytes (item :: items) = item.toBytes ++ itemsToBytes items := by
  simp only [itemsToBytes, toBytes, itemsToString, utf8Bytes_append]

/-! ## The encoders agree -/

section

variable {W : Type u} {writeAll : List UInt8 → W → W} {written : W → List UInt8}

theorem written_writeItemsTo {items : List RespType}
    (each : ∀ item ∈ items, ∀ w, written (item.writeTo writeAll w) = written w ++ item.toBytes)
    (w : W) : written (writeItemsTo writeAll items w) = written w ++ itemsToBytes items := by
  induction items generalizing w with
  | nil => exact (List.append_nil _).symm
  | cons item items ih =>
      rcases List.forall_mem_cons.mp each with ⟨first, rest⟩
      rw [writeItemsTo, ih rest, first, itemsToBytes_cons, List.append_assoc]

/-- A writer that keeps what it is handed in order receives the plain encoding. -/
theorem written_writeTo (keeps : ∀ data w, written (writeAll data w) = written w ++ data)
    (resp : RespType) (w : W) : written (resp.writeTo writeAll w) = written w ++ resp.toBytes := by
  induction resp generalizing w with
  | simpleString text =>
      rw [writeTo]
      split_ifs with ok pong queued
      · rw [keeps, ok]
        rfl
      · rw [keeps, pong]
        rfl
      · rw [keeps, queued]
        rfl
      · simp only [keeps, toBytes_simpleString, List.append_assoc]
        rfl
  | simpleError text =>
      simp only [writeTo, keeps, toBytes_simpleError, List.append_assoc]
      rfl
  | integer value =>
      simp only [writeTo, keeps, toBytes_integer, List.append_assoc]
      rfl
  | bulkString text =>
      rw [writeTo]
      split_ifs with isNil
      · rw [keeps, isNil]
        rfl
      · simp only [keeps, toBytes_bulkString, List.append_assoc]
        rfl
  | array items ih =>
      simp only [writeTo, written_writeItemsTo ih, keeps, toBytes_array, List.append_assoc]
      rfl
  | null => exact keeps _ w
  | boolean value => cases value <;> exact keeps _ w

end

section

universe v

variable {V : Type u} {W : Type v} {observed : List UInt8 → V → V}
  {writeAll : List UInt8 → W → W} {view : V → W}

theorem view_writeItemsTo {items : List RespType}
    (each : ∀ item ∈ items, ∀ w,
      view (item.writeTo observed w) = item.writeTo writeAll (view w))
    (w : V) : view (writeItemsTo observed items w) = writeItemsTo writeAll items (view w) := by
  induction items generalizing w with
  | nil => rfl
  | cons item items ih =>
      rcases List.forall_mem_cons.mp each with ⟨first, rest⟩
      rw [writeItemsTo, ih rest, first, writeItemsTo]

/-- The encoder looks at nothing of its writer: a view of one writer as another
that respects every write respects the writing of a whole value. -/
theorem view_writeTo (respects : ∀ data w, view (observed data w) = writeAll data (view w))
    (resp : RespType) (w : V) :
    view (resp.writeTo observed w) = resp.writeTo writeAll (view w) := by
  induction resp generalizing w with
  | simpleString text =>
      simp only [writeTo]
      split_ifs
      · exact respects _ w
      · exact respects _ w
      · exact respects _ w
      · simp only [respects]
  | simpleError text => simp only [writeTo, respects]
  | integer value => simp only [writeTo, respects]
  | bulkString text =>
      simp only [writeTo]
      split_ifs
      · exact respects _ w
      · simp only [respects]
  | array items ih => simp only [writeTo, view_writeItemsTo ih, respects]
  | null => exact respects _ w
  | boolean value => cases value <;> exact respects _ w

end

/-- An encoder keeps what every write keeps. -/
theorem writeTo_invariant {W : Type u} {writeAll : List UInt8 → W → W}
    {P : W → List UInt8 → Prop}
    (keeps : ∀ {data w bytes}, P w bytes → P (writeAll data w) (bytes ++ data)) (resp : RespType)
    {w : W} {bytes : List UInt8} (start : P w bytes) :
    P (resp.writeTo writeAll w) (bytes ++ resp.toBytes) := by
  -- A writer with the bytes and the invariant beside it.
  let observed : List UInt8 → {v : W × List UInt8 // P v.1 v.2} →
      {v : W × List UInt8 // P v.1 v.2} :=
    fun data v => ⟨(writeAll data v.1.1, v.1.2 ++ data), keeps v.2⟩
  let wrote := resp.writeTo observed ⟨(w, bytes), start⟩
  have first : wrote.1.1 = resp.writeTo writeAll w :=
    @view_writeTo _ _ observed writeAll (fun v => v.1.1) (fun _ _ => rfl) resp _
  have second : wrote.1.2 = bytes ++ resp.toBytes :=
    @written_writeTo _ observed (fun v => v.1.2) (fun _ _ => rfl) resp _
  rw [← first, ← second]
  exact wrote.2

/-- The streaming encoder is the plain one: the pieces it hands to a writer, one
after another and whatever the writer does with them, are together the plain
encoding.  The precomputed replies, at any depth, are pieces like the others. -/
theorem writeTo_sends_toBytes (resp : RespType) :
    ∃ pieces : List (List UInt8), pieces.flatten = resp.toBytes ∧
      ∀ (W : Type u) (writeAll : List UInt8 → W → W) (w : W),
        resp.writeTo writeAll w = pieces.foldl (fun w data => writeAll data w) w := by
  -- The pieces are what a writer that logs its calls has logged.
  let logged : List UInt8 → List (List UInt8) → List (List UInt8) := fun data log => log ++ [data]
  have flattened : ∀ data log, (logged data log).flatten = log.flatten ++ data := by
    intro data log
    rw [List.flatten_append, List.flatten_singleton]
  refine ⟨resp.writeTo logged [], written_writeTo flattened resp [], ?_⟩
  intro W writeAll w
  have replayed : ∀ data log, (logged data log).foldl (fun w data => writeAll data w) w =
      writeAll data (log.foldl (fun w data => writeAll data w) w) := by
    intro data log
    rw [List.foldl_append, List.foldl_cons, List.foldl_nil]
  exact (view_writeTo replayed resp []).symm

end RespType

end Ember.Resp
