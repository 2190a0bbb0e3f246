import Fibers.Proofs.Drift

/-!
What a machine holds beside its world: the frames of every level, the fibers
control is in, and what control itself carries. Most steps stay on one level;
they are described here by where they leave that level.
-/

namespace Fibers

open Asset (cloneOf looseOf shareOf postOf taskOf fiberOf)
def Exit.assets : Exit → List Asset
  | .suspended handle => [.kept handle]
  | _ => []

def Control.assets : Control → List Asset
  | .resumed resumption => resumption.assets
  | .back fiber exit => fiber.assets ++ exit.assets
  | _ => []

def Running.assets (running : Running) : List Asset :=
  .holds running.stack running.home ::
    fiberAssets running.serial running.id running.home running.frames running.first

namespace Machine

/-- The innermost level gets other frames. -/
def withTop (m : Machine) (frames : List Frame) : Machine :=
  match m.running with
  | [] => { m with root := frames }
  | running :: below => { m with running := { running with frames } :: below }

/-- The innermost level goes on with some frames, in some world, told something. -/
def goTo (m : Machine) (frames : List Frame) (w : World) (control : Control) : Machine :=
  { m.withTop frames with world := w, control }

/-- What the levels hold apart from the frames of the innermost one. -/
def beneath (m : Machine) : List Asset :=
  match m.running with
  | [] => []
  | running :: below =>
    .holds running.stack running.home :: .loose (.fiber running.serial running.id running.home) ::
      (running.first.assets ++ below.flatMap Running.assets ++ framesAssets m.root)

def assets (m : Machine) : List Asset := framesAssets m.top ++ m.control.assets ++ m.beneath

section GoTo

variable (m : Machine) (frames frames' : List Frame) (w w' : World) (control control' : Control)

@[simp]
theorem goTo_world : (m.goTo frames w control).world = w := rfl

@[simp]
theorem goTo_control : (m.goTo frames w control).control = control := rfl

@[simp]
theorem goTo_top : (m.goTo frames w control).top = frames := by
  unfold goTo withTop top
  cases m.running <;> rfl

@[simp]
theorem goTo_inFiber : (m.goTo frames w control).inFiber = m.inFiber := by
  unfold goTo withTop inFiber
  cases m.running <;> rfl

@[simp]
theorem goTo_beneath : (m.goTo frames w control).beneath = m.beneath := by
  unfold goTo withTop beneath
  cases m.running <;> rfl

@[simp]
theorem goTo_goTo : (m.goTo frames w control).goTo frames' w' control' =
    m.goTo frames' w' control' := by
  unfold goTo withTop
  cases m.running <;> rfl

theorem goTo_self : m.goTo m.top m.world m.control = m := by
  obtain ⟨world, running, root, control⟩ := m
  unfold goTo withTop top
  cases running <;> rfl

theorem push_eq (frame : Frame) : m.push frame = m.goTo (frame :: m.top) m.world m.control := by
  obtain ⟨world, running, root, control⟩ := m
  unfold push goTo withTop top
  cases running <;> rfl

theorem withWorld_eq : m.withWorld w = m.goTo m.top w m.control := by
  obtain ⟨world, running, root, control⟩ := m
  unfold withWorld goTo withTop top
  cases running <;> rfl

@[simp]
theorem withWorld_world : (m.withWorld w).world = w := rfl

@[simp]
theorem withWorld_withWorld : (m.withWorld w).withWorld w' = m.withWorld w' := rfl

theorem withControl_eq : m.withControl control = m.goTo m.top m.world control := by
  obtain ⟨world, running, root, control⟩ := m
  unfold withControl goTo withTop top
  cases running <;> rfl

@[simp]
theorem goTo_push (frame : Frame) :
    (m.goTo frames w control).push frame = m.goTo (frame :: frames) w control := by
  simp [push_eq]

@[simp]
theorem goTo_withWorld : (m.goTo frames w control).withWorld w' = m.goTo frames w' control := by
  simp [withWorld_eq]

@[simp]
theorem goTo_withControl :
    (m.goTo frames w control).withControl control' = m.goTo frames w control' := by
  simp [withControl_eq]

@[simp]
theorem goTo_advance : (m.goTo frames w control).advance = m.goTo frames w .advance := by
  simp [advance]

@[simp]
theorem goTo_emit (name : String) (payload : Datum) :
    (m.goTo frames w control).emit name payload = m.goTo frames (w.emit name payload) control := by
  simp [emit]

theorem move?_of_top {frame : Frame} {frames : List Frame} (h : m.top = frame :: frames) :
    m.move? = (m.goTo frames m.world m.control).react? frame := by
  obtain ⟨world, running, root, control⟩ := m
  cases running with
  | nil => cases h; rfl
  | cons running below =>
    obtain ⟨serial, id, home, stack, outer, first, fs⟩ := running
    cases h
    rfl

end GoTo

theorem Grounded.goTo {byHand : Prop} {m : Machine} (h : m.Grounded byHand) {w : World}
    (hcurrent : w.current = m.world.current) (hkeeps : m.world.Keeps w) (frames : List Frame)
    (control : Control) : (m.goTo frames w control).Grounded byHand := by
  obtain ⟨world, running, root, told⟩ := m
  obtain ⟨current, nested⟩ := h
  cases running with
  | nil => exact ⟨hcurrent.trans current, trivial⟩
  | cons running below =>
    exact ⟨hcurrent.trans current, nested.1, nested.2.1.mono hkeeps, nested.2.2.mono hkeeps⟩

theorem Grounded.current_isSome {byHand : Prop} {m : Machine} (h : m.Grounded byHand) :
    m.world.current.isSome = m.inFiber := by
  rw [h.current, inFiber]
  cases m.running <;> rfl

end Machine

end Fibers
