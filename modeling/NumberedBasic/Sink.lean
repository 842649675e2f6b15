/-!
# Output with echoes

An output keeps its entries and passes each on, as it is written, to every
echo that is attached at that time.  An echo that was attached twice hears
every entry twice.
-/

namespace NumberedBasic

/-- Attached echoes by name, in order of attachment. -/
abbrev Echoes := List String

namespace Echoes

def add (echoes : Echoes) (name : String) : Echoes := echoes ++ [name]

/-- Detaches the earliest echo of that name, if there is one. -/
def remove? (echoes : Echoes) (name : String) : Option Echoes :=
  if echoes.contains name then some (echoes.erase name) else none

/-- What the echoes hear of some entries: every entry in turn goes to every
echo. -/
def hear (echoes : Echoes) (entries : List String) :
    List (String × String) :=
  entries.flatMap fun entry => echoes.map fun name => (name, entry)

end Echoes

structure Sink where
  entries : List String
  echoes : Echoes
  /-- What the echoes have heard so far. -/
  heard : List (String × String)
  deriving DecidableEq, Repr

namespace Sink

def withEchoes (echoes : Echoes) : Sink := ⟨[], echoes, []⟩

def writeAll (sink : Sink) (entries : List String) : Sink :=
  { sink with
    entries := sink.entries ++ entries
    heard := sink.heard ++ sink.echoes.hear entries }

def write (sink : Sink) (entry : String) : Sink := sink.writeAll [entry]

def addEcho (sink : Sink) (name : String) : Sink :=
  { sink with echoes := sink.echoes.add name }

def removeEcho? (sink : Sink) (name : String) : Option Sink :=
  (sink.echoes.remove? name).map fun echoes => { sink with echoes := echoes }

end Sink

end NumberedBasic
