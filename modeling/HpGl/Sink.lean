import HpGl.SystemFault

/-!
# Sinks

A sink takes the bytes of a statement in as many write calls as it likes, and is then flushed. How
it behaves is given by a script: what the next write calls and the next flush calls do. A script
that has run out takes everything.

* `Script`, `Sink`: what calls do, and a sink that follows it.
* `Sink.send`: one statement. Bytes that were not taken are offered again, an interrupted call is
  repeated, a call that takes nothing is a fault; the flush comes once all bytes were taken.
* `Delivery`: what happened on the way.
-/

namespace HpGl

/-- Why a sink does not take bytes. -/
inductive SinkFault where
  | brokenPipe
  | timedOut
  | permissionDenied
  | interrupted
  | wouldBlock
  | other
  /-- A call took nothing. -/
  | nothingWritten
  /-- The system refuses the bytes. -/
  | system (fault : SystemFault)
  deriving DecidableEq, Repr

namespace SinkFault

/-- The wording of a fault. -/
def cause : SinkFault → String
  | brokenPipe => "broken_pipe"
  | timedOut => "timed_out"
  | permissionDenied => "permission_denied"
  | interrupted => "interrupted"
  | wouldBlock => "would_block"
  | other => "other"
  | nothingWritten => "failed to write whole buffer"
  | system f => f.message

/-- The wording of a fault where it is the result of a call. -/
def message (f : SinkFault) : String := "IO error: " ++ f.cause

end SinkFault

/-- What a write call does. -/
inductive WriteAct where
  | takeAll
  | takeAtMost (n : Nat)
  | fail (fault : SinkFault)
  deriving DecidableEq, Repr

/-- What a flush call does. -/
inductive FlushAct where
  | succeed
  | fail (fault : SinkFault)
  deriving DecidableEq, Repr

/-- What the next write calls and the next flush calls of a sink do. -/
structure Script where
  writes : List WriteAct
  flushes : List FlushAct
  deriving DecidableEq, Repr

namespace Script

/-- Everything is taken. -/
def accepting : Script := ⟨[], []⟩

/-- So many write calls take everything, and the next one fails. -/
def failingAfter (n : Nat) (f : SinkFault) : Script := ⟨List.replicate n .takeAll ++ [.fail f], []⟩

end Script

/-- A sink and the bytes it has taken. -/
structure Sink where
  writes : List WriteAct
  flushes : List FlushAct
  taken : List UInt8

/-- A sink that takes everything. -/
def Sink.accepting : Sink := ⟨[], [], []⟩

/-- The sink that follows a script and has taken nothing yet. -/
def Script.sink (s : Script) : Sink := ⟨s.writes, s.flushes, []⟩

/-- One write call: the bytes it was offered, and how many it took. -/
structure WriteCall where
  offered : List UInt8
  outcome : Except SinkFault Nat

/-- What happened to a statement on its way into the sink. -/
structure Delivery where
  /-- The bytes that were taken. -/
  sent : List UInt8
  writes : List WriteCall
  flushes : Nat
  result : Except SinkFault Unit

namespace Sink

/-- Offer bytes until all are taken. Yields the rest of the script, the bytes taken, the calls and
the fault that stopped them. -/
def writeAll : List WriteAct → List UInt8 →
    List WriteAct × List UInt8 × List WriteCall × Except SinkFault Unit
  | acts, [] => (acts, [], [], .ok ())
  | [], b :: bs => ([], b :: bs, [⟨b :: bs, .ok (b :: bs).length⟩], .ok ())
  | .takeAll :: acts, b :: bs => (acts, b :: bs, [⟨b :: bs, .ok (b :: bs).length⟩], .ok ())
  | .takeAtMost n :: acts, b :: bs =>
    let offered := b :: bs
    let k := min n offered.length
    if k = 0 then (acts, [], [⟨offered, .ok 0⟩], .error .nothingWritten)
    else
      let (acts, sent, calls, result) := writeAll acts (offered.drop k)
      (acts, offered.take k ++ sent, ⟨offered, .ok k⟩ :: calls, result)
  | .fail f :: acts, b :: bs =>
    let call : WriteCall := ⟨b :: bs, .error f⟩
    if f = .interrupted then
      let (acts, sent, calls, result) := writeAll acts (b :: bs)
      (acts, sent, call :: calls, result)
    else (acts, [], [call], .error f)

/-- One flush call. -/
def flush : List FlushAct → List FlushAct × Except SinkFault Unit
  | [] => ([], .ok ())
  | .succeed :: acts => (acts, .ok ())
  | .fail f :: acts => (acts, .error f)

/-- One statement: all its bytes, then a flush. -/
def send (s : Sink) (bytes : List UInt8) : Sink × Delivery :=
  match writeAll s.writes bytes with
  | (writes, sent, calls, .error f) =>
    ({ s with writes, taken := s.taken ++ sent }, ⟨sent, calls, 0, .error f⟩)
  | (writes, sent, calls, .ok ()) =>
    let (flushes, result) := flush s.flushes
    (⟨writes, flushes, s.taken ++ sent⟩, ⟨sent, calls, 1, result⟩)

end Sink

end HpGl
