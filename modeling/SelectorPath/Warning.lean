/-! Warnings and the log that keeps them from being repeated. The log holds a bounded number of
keys; a new key that finds it full empties it first. -/

namespace SelectorPath

structure Warning where
  component : String
  message : String
  deriving DecidableEq, Repr

/-- What the log remembers of a warning; distinct warnings may share a key. -/
def Warning.key (warning : Warning) : String :=
  s!"[{warning.component}] {warning.message}"

/-- The keys of the warnings printed since the log was last emptied, newest first. -/
structure Log where
  keys : List String := []
  deriving DecidableEq, Repr

namespace Log

def capacity : Nat := 256

def size (log : Log) : Nat :=
  log.keys.length

def contains (log : Log) (warning : Warning) : Bool :=
  log.keys.contains warning.key

/-- Remembers a warning that the log does not contain. -/
def insert (log : Log) (warning : Warning) : Log :=
  if log.size < capacity then ⟨warning.key :: log.keys⟩ else ⟨[warning.key]⟩

end Log

end SelectorPath
