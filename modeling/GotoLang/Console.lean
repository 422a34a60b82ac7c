import GotoLang.RuntimeError

set_option autoImplicit false

namespace GotoLang

/-- Collected output. With a limit, it takes that many bytes and refuses the next one. Whether it
can be flushed may depend on how many bytes were written. -/
structure Sink where
  written : ByteArray
  limit : Option Nat
  failFlush : Nat → Bool

namespace Sink

def empty (limit : Option Nat) (failFlush : Nat → Bool) : Sink :=
  ⟨.empty, limit, failFlush⟩

def unlimited : Sink := empty none fun _ => false

def refusesFlush (sink : Sink) : Bool :=
  sink.failFlush sink.written.size

/-- The number of bytes that can still be written. -/
def room? (sink : Sink) : Option Nat :=
  sink.limit.map (· - sink.written.size)

/-- Writes the bytes that there is room for, and tells whether these were all. -/
def write (sink : Sink) (bytes : ByteArray) : Sink × Bool :=
  match sink.room? with
  | none => ({ sink with written := sink.written ++ bytes }, true)
  | some room =>
    if bytes.size ≤ room then ({ sink with written := sink.written ++ bytes }, true)
    else ({ sink with written := sink.written ++ bytes.extract 0 room }, false)

end Sink

/-- The first line of an input with its line end, and the input after it. -/
def splitLine : List UInt8 → List UInt8 × List UInt8
  | [] => ([], [])
  | byte :: input =>
    if byte = 10 then ([byte], input)
    else
      let (line, rest) := splitLine input
      (byte :: line, rest)

@[simp] theorem splitLine_append (input : List UInt8) :
    (splitLine input).1 ++ (splitLine input).2 = input := by
  induction input with
  | nil => rfl
  | cons byte input ih =>
    by_cases h : byte = 10
    · simp [splitLine, h]
    · simp [splitLine, h, ih]

end GotoLang
