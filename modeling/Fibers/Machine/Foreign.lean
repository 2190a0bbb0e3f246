import Fibers.Machine.Await

/-!
The foreign side calls by code: zero or a count on success, minus one on
failure, and then the text of the failure is the last error. Handles passed in
may be null. A call that succeeds leaves the last error alone.
-/

namespace Fibers.Machine

/-- A successful call, with its code. -/
def foreignOk (m : Machine) (name : String) (code : Nat) : Machine :=
  (m.withWorld (m.world.foreignReturned name)).emit name (.record [("code", .nat code)])

/-- A failing call. -/
def foreignFailed (m : Machine) (name : String) (failure : Failure) : Machine :=
  let w := m.world.foreignFailed name failure
  (m.withWorld w).emit name (.record [("code", .int (-1)), ("last_error", w.lastErrorDatum)])

def foreignAnswer (m : Machine) (name : String) : Except SchedulerFault Nat → Machine
  | .ok code => m.foreignOk name code
  | .error fault => m.foreignFailed name (.ofFault fault)

/-- The handle in a slot; without a slot, or if it is empty, there is none. -/
def foreignHandle? (w : World) (slot : Option String) (keep : Bool) : Option (HandleRef × World) :=
  slot.bind fun name => w.takeHandle? name keep

/-- Resumes a handle on behalf of the foreign side, for which null is no
handle. -/
def foreignResume (m : Machine) (name : String) (s : SchedulerId) (slot : Option String)
    (keep : Bool) (resumption : Resumption) : Machine :=
  match foreignHandle? m.world slot keep with
  | none => m.foreignFailed name (.ofMessage "null fiber handle")
  | some (handle, w) =>
    (((m.withWorld (w.own s)).push (.answering s (.foreignResume name))).deliver s
      handle resumption)

/-- The error that a foreign message stands for. -/
def foreignError : Option (List UInt8) → Failure
  | none => .ofMessage "host call failed"
  | some bytes => .ofMessage (Text.ofTerminated bytes)

/-- Resumes a handle without going through the foreign interface. Without a
handle the resumption is released. -/
def directResume (m : Machine) (s : SchedulerId) (slot : Option String) (keep : Bool)
    (resumption : Resumption) : Machine :=
  match foreignHandle? m.world slot keep with
  | none =>
    let m := m.emit "rust_resume" (.text "empty")
    m.withWorld (m.world.release resumption.debris)
  | some (handle, w) =>
    ((m.withWorld (w.own s)).push (.answering s .directResume)).deliver s handle resumption

def handleText (m : Machine) (slot : String) : Machine :=
  m.emit "handle" (.text ((m.world.slots.get? slot).elim "empty" m.world.describe))

/-- Gives up a handle; null is ignored. -/
def destroyHandle (m : Machine) (slot : Option String) (keep : Bool) : Machine :=
  let w :=
    match foreignHandle? m.world slot keep with
    | none => m.world
    | some (handle, w) => (w.tell (.destroyed (w.handleId handle))).release [.handle handle]
  (m.withWorld w).emit "handle_destroy" .null

end Fibers.Machine
