import AuditRelay.Event.Text
import AuditRelay.Text.Blank

/-!
# AuditRelay.Store.Spool.Lines — the lines of an event file

A file is cut at its line feeds. A line that is blank holds nothing; any other is an event or is
damaged. `sift` separates the two and keeps the lines of the events as they stand, each with a line
feed behind it. A damaged line is recorded in a dead letter: when, from which file, what it looked
like, and why it was refused.
-/

namespace AuditRelay.Spool

/-- The octet between lines. -/
def lineFeed : UInt8 := 10

/-- Puts an octet before a text that is cut into its first line and the others. -/
def cutBefore (b : UInt8) (cut : Octets × List Octets) : Octets × List Octets :=
  if b = lineFeed then ([], cut.1 :: cut.2) else (b :: cut.1, cut.2)

/-- The lines of a text, the last being what follows the last line feed. -/
def lines (bs : Octets) : List Octets :=
  let cut := bs.foldr cutBefore ([], [])
  cut.1 :: cut.2

/-- Whether a line holds no record. -/
def isBlankLine (line : Octets) : Bool :=
  line.all Text.isBlankOctet

/-- A line that is neither blank nor an event. -/
structure Damaged where
  line : Octets
  fault : JsonFault
  deriving DecidableEq, Repr

/-- The events of a file, their lines, and its damaged lines. -/
structure Sifted where
  events : List Event
  kept : Octets
  damaged : List Damaged

/-- Puts a line before those that have been separated. -/
def siftBefore (line : Octets) (s : Sifted) : Sifted :=
  if isBlankLine line then s
  else
    match Event.read line with
    | .ok e => ⟨e :: s.events, line ++ lineFeed :: s.kept, s.damaged⟩
    | .error f => ⟨s.events, s.kept, ⟨line, f⟩ :: s.damaged⟩

/-- Separates events from damaged lines, in their order. -/
def sift (ls : List Octets) : Sifted :=
  ls.foldr siftBefore ⟨[], [], []⟩

/-- The record of a damaged line. -/
structure DeadLetter where
  timestamp : String
  sourceFile : String
  rawData : String
  error : String
  deriving DecidableEq, Repr

/-- The dead letter of a damaged line. -/
def Damaged.letter (d : Damaged) (timestamp sourceFile : String) : DeadLetter :=
  ⟨timestamp, sourceFile, Text.lossy d.line, Event.refusal d.fault⟩

/-- A dead letter as a line. -/
def DeadLetter.written (l : DeadLetter) : Octets :=
  '\x7b'.toUInt8 ::
    (Json.writtenMembers [("timestamp", .string l.timestamp), ("source_file", .string l.sourceFile),
      ("raw_data", .string l.rawData), ("error", .string l.error)] ++ ['\x7d'.toUInt8, lineFeed])

end AuditRelay.Spool
