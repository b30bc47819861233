import Tale.Files
import Tale.Json.Printer
import Tale.Player.Frame
import Tale.Telling

/-!
# Failures of the player

A failure has a code to tell it by and a message. One that comes from the story has the place and
the trail of its fault as well.
-/

namespace Tale.Player

inductive Failure
  | source (e : SourceError)
  | step (e : StepError)
  | sourceNotFound (path : String)
  | storyNotFound (path : String)
  | storyUnreadable (e : FileError)
  | noStories (directory : String)
  | entryNotFound (name directory : String)
  | reference (reference : String)
  | stateNotFound (path : String)
  | stateUnreadable (e : FileError)
  | stateMalformed
  | stateFormat (found : String)
  | otherStory (expected actual : String)
  | stateUnwritable (e : FileError)

namespace Failure

def code : Failure → String
  | source e => e.code
  | step e => e.code
  | sourceNotFound _ | storyNotFound _ => "CLI_SOURCE_NOT_FOUND"
  | storyUnreadable _ => "CLI_SOURCE_READ"
  | noStories _ => "CLI_SOURCE_EMPTY"
  | entryNotFound .. => "CLI_SOURCE_ENTRY_NOT_FOUND"
  | reference _ => "CLI_SOURCE_REF_INVALID"
  | stateNotFound _ => "CLI_STATE_NOT_FOUND"
  | stateUnreadable _ => "CLI_STATE_READ"
  | stateMalformed => "CLI_STATE_INVALID"
  | stateFormat _ => "CLI_STATE_SCHEMA"
  | otherStory .. => "CLI_STATE_STORY_MISMATCH"
  | stateUnwritable _ => "CLI_STATE_WRITE"

def message : Failure → String
  | source e => e.message
  | step e => e.message
  | sourceNotFound path => "source does not exist: " ++ path
  | storyNotFound path => "story file does not exist: " ++ path
  | storyUnreadable e => e.message
  | noStories directory => "No .wtcd files under " ++ directory
  | entryNotFound name directory => "Entry " ++ name ++ " not found under " ++ directory
  | reference r => "Unsupported story ref: " ++ r
  | stateNotFound path => "State file does not exist: " ++ path
  | stateUnreadable e => e.message
  | stateMalformed => "The file does not hold a player's state"
  | stateFormat found => "Unsupported player state schema: " ++ found
  | otherStory expected actual =>
    "State story mismatch. expected=" ++ expected ++ " actual=" ++ actual
  | stateUnwritable e => e.message

/-- The place of a fault. The message of a source that cannot be parsed names its place itself. -/
def location : Failure → Option Location
  | step (.fault f) => f.location
  | _ => none

/-- The trail of a fault, innermost first. -/
def trail : Failure → List String
  | step (.fault f) => f.trailLines
  | _ => []

/-- A text in quotes. -/
def quoted (s : String) : String :=
  (Json.str s).compact

/-- The lines that report a failure. -/
def lines (f : Failure) : List String :=
  ["RESULT:ERROR", "ERROR_CODE:" ++ f.code, "ERROR_MSG_JSON:" ++ quoted f.message]
    ++ (f.location.toList.map fun l => "ERROR_LOCATION:" ++ l.text)
    ++ f.trail.map fun l => "ERROR_STACK_JSON:" ++ (Frame.ofLine l).toJson.compact

end Failure

end Tale.Player
