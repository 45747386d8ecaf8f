import ViewCache.Convention
import ViewCache.Json.Fault

namespace ViewCache

inductive FileFault
  | notFound
  | notDirectory
  | isDirectory
  | nameTooLong
  | tooManyLinks
  | nulInName
  | notUtf8
  | other (text : String)
  deriving DecidableEq, Repr

def FileFault.message : FileFault → String
  | notFound => "No such file or directory (os error 2)"
  | notDirectory => "Not a directory (os error 20)"
  | isDirectory => "Is a directory (os error 21)"
  | nameTooLong => "File name too long (os error 36)"
  | tooManyLinks => "Too many levels of symbolic links (os error 40)"
  | nulInName => "file name contained an unexpected NUL byte"
  | notUtf8 => "stream did not contain valid UTF-8"
  | other text => text

inductive PathFault
  | empty
  | missing
  /-- the path leaves the view root or names no file below it -/
  | rejected (path : String)
  | badNamespace (name : String)
  deriving DecidableEq, Repr

def PathFault.message : PathFault → String
  | empty => "empty view path"
  | missing => "lookup without a path"
  | rejected path => path
  | badNamespace name => s!"invalid namespace '{name}'"

inductive ConfigFault
  | unreadable (path : String) (fault : FileFault)
  | notFlag (raw : String)
  | notTimeout (raw : String)
  | other (text : String)
  deriving DecidableEq, Repr

def ConfigFault.message : ConfigFault → String
  | unreadable path fault => s!"cannot read {path}: {fault.message}"
  | notFlag raw => s!"{Convention.reloadVariable}: expected a boolean, got '{raw}'"
  | notTimeout raw => s!"{Convention.timeoutVariable}: expected milliseconds, got '{raw}'"
  | other text => text

inductive Failure
  | invalidPath (fault : PathFault)
  /-- the resolver gave up for a reason other than "not found" -/
  | unresolved (uri reason : String)
  | file (fault : FileFault)
  | json (fault : Json.Fault)
  | config (fault : ConfigFault)
  deriving DecidableEq, Repr

namespace Failure

def message : Failure → String
  | invalidPath fault => s!"Invalid view path: {fault.message}"
  | unresolved uri reason => s!"Resolution failed for '{uri}': {reason}"
  | file fault => s!"I/O error: {fault.message}"
  | json fault => s!"JSON error: {fault.message}"
  | config fault => s!"Configuration error: {fault.message}"

def source? : Failure → Option String
  | file fault => some fault.message
  | json fault => some fault.message
  | _ => none

def isRecoverable : Failure → Bool
  | file _ | unresolved .. => true
  | _ => false

def isValidation : Failure → Bool
  | invalidPath _ | config _ => true
  | _ => false

theorem not_recoverable_of_validation {f : Failure} (h : f.isValidation = true) :
    f.isRecoverable = false := by
  cases f <;> simp_all [isValidation, isRecoverable]

end Failure

/-- The failure of an updater, which carries the updater's own error unchanged. -/
structure UpdateFailure (E : Type) where
  cause : E
  deriving DecidableEq, Repr

def UpdateFailure.message {E : Type} (say : E → String) (f : UpdateFailure E) : String :=
  s!"cache update failed: {say f.cause}"

end ViewCache
