import SampleStream.Session.State

/-!
# The controller

Sends loads and finds out how the latest of them went. Acknowledgments carry no number, so those still
unread when a load is sent are thrown away; reports carry theirs, and those of earlier loads are passed
over.
-/

namespace SampleStream

universe u v

inductive ProtocolError
  | disconnected
  | full
  /-- Nothing was acknowledged within so many microseconds. -/
  | timeout (microseconds : Nat)
  | loadFailed (generation : Nat) (error : LoadError)
deriving DecidableEq, Repr

/-- A number of units and the billionths, millionths or thousandths behind it, without trailing zeros. -/
def withFraction (whole fraction places : Nat) : String :=
  let digits := Numeral.digits fraction
  let padded := List.replicate (places - digits.length) '0' ++ digits
  let kept := (padded.reverse.dropWhile (· == '0')).reverse
  String.ofList (Numeral.digits whole ++ if kept.isEmpty then [] else '.' :: kept)

/-- A span of time in the largest unit of which it has one. -/
def durationText (microseconds : Nat) : String :=
  if 1000000 ≤ microseconds then
    withFraction (microseconds / 1000000) (microseconds % 1000000) 6 ++ "s"
  else if 1000 ≤ microseconds then
    withFraction (microseconds / 1000) (microseconds % 1000) 3 ++ "ms"
  else if 0 < microseconds then withFraction microseconds 0 3 ++ "µs"
  else "0ns"

def ProtocolError.message : ProtocolError → String
  | .disconnected => "render context disconnected"
  | .full => "control queue is full"
  | .timeout microseconds =>
    "no readiness acknowledgment within " ++ durationText microseconds
  | .loadFailed generation error =>
    "load " ++ toString generation ++ " failed: " ++ error.message

namespace Session

variable {α : Type v} {σ : Type u}

/-- Sends a load, and gives the number that it has. Unread acknowledgments are thrown away first, also
when the load is then refused. -/
def load (source : α) (s : Session α σ) : Except ProtocolError Nat × Session α σ :=
  let s := { s with acks := s.acks.clear }
  if s.processorAlive then
    match s.control.push? source with
    | some control => (.ok (s.sent + 1), { s with control, sent := s.sent + 1 })
    | none => (.error .full, s)
  else (.error .disconnected, s)

/-- Reads reports up to the first of the latest load. -/
def findReport (sent : Nat) : List LoadReport → Option LoadError × List LoadReport
  | [] => (none, [])
  | r :: rest => if r.generation = sent then (some r.error, rest) else findReport sent rest

def withReports (reports : List LoadReport) (s : Session α σ) : Session α σ :=
  { s with reports := { s.reports with items := reports } }

/-- Takes the acknowledgment at the front of the queue; without one, `absent` says how it is, unless
nobody is there any more to send one. -/
def takeAck {β : Type} (present : β) (absent : Except ProtocolError β) (s : Session α σ) :
    Except ProtocolError β × Session α σ :=
  match s.acks.items with
  | _ :: rest => (.ok present, { s with acks := { s.acks with items := rest } })
  | [] => (if s.processorAlive then absent else .error .disconnected, s)

/-- Whether an acknowledgment is there. A failure of the latest load is an error. -/
def tryReady (s : Session α σ) : Except ProtocolError Bool × Session α σ :=
  match findReport s.sent s.reports.items with
  | (some error, rest) => (.error (.loadFailed s.sent error), s.withReports rest)
  | (none, rest) => (s.withReports rest).takeAck true (.ok false)

/-- Waits for an acknowledgment while nobody else does anything. When an acknowledgment, or its absence
for ever, and a report can both be taken, `ackFirst` says which is; one report is passed over for each
of `fuel`. -/
def waitReadyFor (ackFirst : Nat → Bool) (microseconds : Nat) :
    Nat → Session α σ → Except ProtocolError Unit × Session α σ
  | 0, s => s.takeAck () (.error (.timeout microseconds))
  | fuel + 1, s =>
    let ackReady := !s.acks.items.isEmpty || !s.processorAlive
    if ackReady && ackFirst fuel then s.takeAck () (.error (.timeout microseconds))
    else
      match s.reports.items with
      | r :: rest =>
        if r.generation = s.sent then (.error (.loadFailed s.sent r.error), s.withReports rest)
        else waitReadyFor ackFirst microseconds fuel (s.withReports rest)
      | [] => s.takeAck () (.error (.timeout microseconds))

/-- Waits until so many microseconds from now, provided that it is a time that the clock can tell. Of a wait past
all time nothing is said here. -/
def waitReady (ackFirst : Nat → Bool) (microseconds : Nat) (s : Session α σ) :
    Except ProtocolError Unit × Session α σ :=
  s.waitReadyFor ackFirst microseconds (s.reports.items.length + 1)

end Session

end SampleStream
