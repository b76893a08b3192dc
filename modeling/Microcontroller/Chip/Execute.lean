import Microcontroller.Chip.Plan
/-!
# Executing an instruction

An instruction is executed by carrying out its plan. Planning has no effect and the writes of a plan
cannot fail, so only one thing can still go wrong once storage has changed: a flag that the status
register has no room for. A register as wide as the layout asks for has room for all of them.
-/

namespace Microcontroller

namespace Storage

/-- Set flags one after the other, up to the first that has no place. -/
def setFlags (layout : FlagLayout) : List (Flag × Bool) → Storage → Except Fault Unit × Storage
  | [], s => (.ok (), s)
  | (f, value) :: rest, s =>
    let index := layout.index f
    if index < s.status.len then
      setFlags layout rest { s with status := s.status.put index value }
    else (.error (.bounds s.ip .status index s.status.len), s)

def commit (layout : FlagLayout) (plan : Plan) (s : Storage) : Except Fault Flow × Storage :=
  let (result, s) := setFlags layout plan.flags (plan.writes.foldl apply s)
  (result.map fun _ => plan.flow, s)

/-- Execute the instruction at the instruction pointer, which does not move. -/
def execute (layout : FlagLayout) (d : Decoded) (s : Storage) : Except Fault Flow × Storage :=
  match Plan.of d s layout with
  | .ok plan => s.commit layout plan
  | .error fault => (.error fault, s)

end Storage

end Microcontroller
