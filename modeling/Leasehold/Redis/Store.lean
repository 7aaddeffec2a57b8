import Leasehold.Redis.Reply

/-!
# A store on a Redis server

Every request to the store becomes one command, and its answer is read off the reply.  A value is
written with `SET`, under the condition that the key has none, and with its time to live in
milliseconds: whole ones, at least one and at most those that fit a 64-bit word.

Comparing and deleting has to happen at once, so it is a script that the server runs.  The server is
asked to run it by its digest.  If it does not know the script, the script is loaded first.

What is said is a dialogue: commands, and what to do with the reply to each.  It can be held with
anything that replies to commands.
-/

namespace Leasehold.Redis

/-- A command: a list of words. -/
abbrev Command := List String

/-- A dialogue with a server. -/
inductive Dialogue (α : Type) where
  /-- It is over. -/
  | over (outcome : Outcome α)
  /-- A command, and what follows the reply. -/
  | ask (c : Command) (next : Reply → Dialogue α)

/-- Holds a dialogue with a server.  Gives what comes of it and the commands that were sent. -/
def Dialogue.hold {α σ : Type} (reply : σ → Command → Reply × σ) :
    Dialogue α → σ → Outcome α × List Command × σ
  | .over outcome, server => (outcome, [], server)
  | .ask c next, server =>
      let (r, server) := reply server c
      let (outcome, commands, server) := (next r).hold reply server
      (outcome, c :: commands, server)

/-! ## Commands -/

/-- A time to live in milliseconds. -/
def ttlMillis (ttl : Duration) : Nat := max 1 (min ttl.millis (Nat.pow 2 64 - 1))

/-- The script that compares and deletes. -/
def script : String :=
  "\nif redis.call(\"GET\", KEYS[1]) == ARGV[1] then\n    return redis.call(\"DEL\", KEYS[1])\n" ++
  "else\n    return 0\nend\n"

/-- The digest of the script. -/
def scriptDigest : String := "aefc6bbfaac1ed02c135d12b12c8c42cdfb36af4"

/-- The command that runs the script. -/
def runScript (key value : String) : Command := ["EVALSHA", scriptDigest, "1", key, value]

/-- The command that loads the script. -/
def loadScript : Command := ["SCRIPT", "LOAD", script]

/-! ## Requests -/

/-- A dialogue of one command. -/
def once {α : Type} (c : Command) (read : Reply → Outcome α) : Dialogue α :=
  .ask c fun r => .over (read r)

/-- What follows the number that a refresh gives. -/
def refreshAnswer (key : String) (n : Int) : Outcome Answer :=
  if n = 1 then .ok .done
  else if n = 0 then .error (.store (.notFound key))
  else .error (.store
    (.command ("unexpected PEXPIRE reply " ++ toString n ++ " for " ++ key)))

/-- The answer that the number of removed keys gives. -/
def removedAnswer (n : Int) : Answer := .removed (n == 1)

/-- The dialogue that a request takes. -/
def dialogue : Request → Dialogue Answer
  | .set key value ttl =>
      once ["SET", key, value, "NX", "PX", toString (ttlMillis ttl)] fun r =>
        r.toText?.map fun
          | some _ => .acquired
          | none => .occupied
  | .get key => once ["GET", key] fun r => r.toText?.map .value
  | .delete key => once ["DEL", key] fun r => r.toNumber.map fun _ => .done
  | .refresh key ttl =>
      once ["PEXPIRE", key, toString (ttlMillis ttl)] fun r => r.toNumber >>= refreshAnswer key
  | .deleteIfEquals key value =>
      .ask (runScript key value) fun r =>
        if r.unknownScript then
          .ask loadScript fun loaded =>
            match loaded.accepted with
            | .error e => .over (.error e)
            | .ok _ => once (runScript key value) fun r => r.toNumber.map removedAnswer
        else .over (r.toNumber.map removedAnswer)

/-! ## A server that follows a script of replies -/

/-- Takes the next reply. -/
def scriptedReply (replies : List Reply) (_ : Command) : Reply × List Reply :=
  match replies with
  | r :: replies => (r, replies)
  | [] => (.error "ERR script exhausted", [])

/-- Holds the dialogues of requests one after another with a server of given replies. -/
def runScripted : (replies : List Reply) → List Request → List (List Command × Outcome Answer)
  | _, [] => []
  | replies, r :: rs =>
      let (outcome, commands, replies) := (dialogue r).hold scriptedReply replies
      (commands, outcome) :: runScripted replies rs

end Leasehold.Redis
