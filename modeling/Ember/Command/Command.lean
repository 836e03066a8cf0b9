import Ember.Base.Decimal
import Ember.Database.Core
import Ember.Resp.Types

/-!
# Commands

The commands a client can send, and their extraction from a parsed frame.  An
argument that is not there is indexed out of bounds, which panics; deadlines are
computed from the clock at extraction.
-/

namespace Ember

open Ember.Base Ember.Database Ember.Resp

/-- The commands, with deadlines instead of times to live. -/
inductive Command where
  | ping
  | echo (msg : String)
  | set (key val : String) (expiresAt : Option Instant)
  | get (key : String)
  | delete (key : String)
  | lpush (key : String) (values : List String)
  | rpush (key : String) (values : List String)
  | lrange (key : String) (start stop : Int32)
  | expire (key : String) (expiresAt : Instant) (option : Option String)
  | multi
  | discard
  | exec
  | save
  deriving DecidableEq, Repr

namespace Command

/-- A numeric argument: surrounding white space is ignored, and anything that is
not a 32-bit integer counts as zero. -/
def parseInt (s : String) : Int32 :=
  Int32.ofInt ((parseSigned 31 (trim s)).getD 0)

/-- Access to an argument, which panics when there are fewer. -/
def argument (args : List RespType) (i : ℕ) : Outcome String RespType :=
  match args[i]? with
  | some arg => .ok arg
  | none => .panic

/-- The instant a number of milliseconds, given as a signed integer, after `now`. -/
def deadlineAfter (now : Instant) (millis : Int32) : Instant :=
  now + asU64 millis * 1000000

/-- The texts among the arguments of a push, where others are skipped. -/
def bulkStrings : List RespType → List String
  | [] => []
  | .bulkString bs :: rest => bs :: bulkStrings rest
  | _ :: rest => bulkStrings rest

/-- The deadline of a SET with at least four arguments. -/
def parseSetExpiry (target : Target) (now : Instant) (flag expiresIn : RespType) :
    Outcome String Instant :=
  match flag, expiresIn with
  | .bulkString flag, .bulkString expiresIn =>
      if toAsciiUppercase flag = "EX" then do
        let millis ← target.mulI32 (parseInt expiresIn) 1000
        return deadlineAfter now millis
      else if toAsciiUppercase flag = "PX" then
        .ok (deadlineAfter now (parseInt expiresIn))
      else
        .error "Invalid expiry flag. Only EX and PX are supported."
  | _, _ =>
      .error "Invalid SET command format for expiry. Expected EX or PX followed by expiry time."

/-- SET, with a time to live if there are four arguments or more. -/
def parseSet (target : Target) (now : Instant) (args : List RespType) :
    Outcome String Command := do
  if args.length < 2 then
    .error "SET command requires two arguments."
  else
    match ← argument args 0, ← argument args 1 with
    | .bulkString k, .bulkString v =>
        if args.length < 4 then
          return .set k v none
        else
          let expiresAt ← parseSetExpiry target now (← argument args 2) (← argument args 3)
          return .set k v (some expiresAt)
    | _, _ => .error "SET arguments must be bulk strings."

/-- The commands that take one text, which must be a bulk string. -/
def parseText (args : List RespType) (command : String → Command) (message : String) :
    Outcome String Command := do
  match ← argument args 0 with
  | .bulkString text => return command text
  | _ => .error message

/-- LRANGE; an index that is no number counts as 0. -/
def parseLrange (args : List RespType) : Outcome String Command := do
  match ← argument args 0, ← argument args 1, ← argument args 2 with
  | .bulkString key, .bulkString start, .bulkString stop =>
      return .lrange key (parseInt start) (parseInt stop)
  | _, _, _ => .error "LRANGE command requires an argument."

/-- The option of an EXPIRE, which only some texts spell. -/
def parseExpireOption (args : List RespType) : Outcome String (Option String) :=
  if args.length > 2 then do
    match ← argument args 2 with
    | .bulkString opt =>
        if opt = "NX" ∨ opt = "XX" ∨ opt = "GT" ∨ opt = "LT" then
          return some opt
        else
          .error "Invalid option in expire command. Only NX, XX, GT, LT are supported."
    | _ => .error "Invalid option format in expire command. Expected a bulk string."
  else
    .ok none

/-- EXPIRE, whose time to live is in milliseconds. -/
def parseExpire (now : Instant) (args : List RespType) : Outcome String Command := do
  match ← argument args 0, ← argument args 1 with
  | .bulkString k, .bulkString expiresIn =>
      let option ← parseExpireOption args
      return .expire k (deadlineAfter now (parseInt expiresIn)) option
  | _, _ => .error "EXPIRE command requires an argument."

/-- The command of a name, which is in upper case, and its arguments. -/
def parseCommand (target : Target) (now : Instant) (cmd : String) (args : List RespType) :
    Outcome String Command :=
  match cmd with
  | "PING" => .ok .ping
  | "ECHO" => parseText args .echo "ECHO command requires an argument."
  | "SET" => parseSet target now args
  | "GET" => parseText args .get "GET command requires an argument."
  | "DELETE" => parseText args .delete "DELETE command requires an argument."
  | "LPUSH" =>
      parseText args (fun k => .lpush k (bulkStrings args.tail))
        "LPUSH command requires an argument."
  | "RPUSH" =>
      parseText args (fun k => .rpush k (bulkStrings args.tail))
        "RPUSH command requires an argument."
  | "LRANGE" => parseLrange args
  | "EXPIRE" => parseExpire now args
  | "MULTI" => .ok .multi
  | "DISCARD" => .ok .discard
  | "EXEC" => .ok .exec
  | "SAVE" => .ok .save
  -- The greeting of the standard command line client is `COMMAND DOCS`.
  | "COMMAND" => .ok .ping
  | _ => .error ("Unknown command: " ++ cmd)

/-- Extract the command of a frame, at time `now`. -/
def extractCommand (target : Target) (now : Instant) : RespType → Outcome String Command
  | .array (.bulkString cmd :: args) => parseCommand target now (toAsciiUppercase cmd) args
  | _ => .error "Invalid command format."

end Command

end Ember
