import ModuleGraph.Change.NameStatus
import ModuleGraph.Text.Utf8

/-!
Questions to Git about a repository. A question is the arguments that ask it and a reading of what
Git replies; how Git is run is up to whoever asks.
-/
namespace ModuleGraph
open Text

/-- Why Git gives no answer. -/
inductive GitError where
  | notStarted (cause : String)
  | failed (command stderr : String)
  | unexpectedOutput (cause : String)
  deriving DecidableEq

namespace GitError

/-- The wording of an error. -/
def message : GitError → String
  | .notStarted cause => "failed to run git: " ++ cause
  | .failed command stderr => "\x60" ++ command ++ "\x60 failed: " ++ stderr
  | .unexpectedOutput cause => "unexpected git output: " ++ cause

end GitError

/-- What a run of Git leaves behind. -/
structure GitReply where
  exitCode : Nat
  stdout : List UInt8
  stderr : List UInt8

/-- A way to run Git that may keep account of its runs in a state, or the reason why Git does not
    start. -/
abbrev Git (σ : Type) : Type := σ → List String → Except String GitReply × σ

/-- A question to Git. -/
structure GitQuery (α : Type) where
  arguments : List String
  read : GitReply → Except GitError α

namespace GitQuery
variable {α σ : Type}

/-- The error output of a run, for messages. -/
def complaint (reply : GitReply) : String :=
  .ofList (trim (ofUtf8Lossy reply.stderr).toList)

/-- The question whose answer is read from the output of a run without an error. -/
def ofOutput (arguments : List String) (read : List Char → Except GitError α) : GitQuery α where
  arguments := arguments
  read reply :=
    if reply.exitCode = 0 then read (ofUtf8Lossy reply.stdout).toList
    else .error (.failed (" ".intercalate ("git" :: arguments)) (complaint reply))

/-- The files touched between two revisions. -/
def changes (source target : String) : GitQuery ChangeSet :=
  ofOutput ["diff", "--name-status", "-z", "--find-renames", "--relative", source, target, "--"]
    fun output =>
      match NameStatus.parse (.ofList output) with
      | .ok changes => .ok changes
      | .error fault => .error (.unexpectedOutput fault.message)

/-- The current revision. There is none before the first commit, which Git says by exit code 1. -/
def latestRevision : GitQuery (Option String) where
  arguments := ["rev-parse", "--verify", "--quiet", "HEAD"]
  read reply :=
    if reply.exitCode = 0 then
      let revision := trim (ofUtf8Lossy reply.stdout).toList
      .ok (if revision = [] then none else some (.ofList revision))
    else if reply.exitCode = 1 then .ok none
    else .error (.failed "git rev-parse --verify HEAD" (complaint reply))

/-- Reads a commit from its hash, author, date and subject with a separator between each two. -/
def readCommit (output : List Char) : Except GitError Commit :=
  let missing (name : String) : Except GitError Commit :=
    .error (.unexpectedOutput ("missing " ++ name ++ " in git log"))
  match piecesAt '\x1f' (dropEndWhile (· == '\n') output) with
  | [] => missing "hash"
  | [_] => missing "author"
  | [_, _] => missing "date"
  | [_, _, _] => missing "subject"
  | revision :: author :: date :: summary :: _ =>
    .ok ⟨.ofList revision, .ofList author, .ofList date, .ofList summary⟩

/-- The current commit. -/
def currentCommit : GitQuery Commit :=
  ofOutput ["log", "-1", "--format=%H%x1f%an%x1f%aI%x1f%s"] readCommit

/-- Asks a question about a repository. No program takes an argument with a NUL in it. -/
def ask (query : GitQuery α) (git : Git σ) (repository : Path) (s : σ) : Except GitError α × σ :=
  let arguments := "-C" :: repository.text :: query.arguments
  if arguments.any (·.toList.contains '\x00') then
    (.error (.notStarted "nul byte found in provided data"), s)
  else
    match git s arguments with
    | (.error cause, s) => (.error (.notStarted cause), s)
    | (.ok reply, s) => (query.read reply, s)

end GitQuery
end ModuleGraph
