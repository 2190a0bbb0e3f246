import Fibers.Proofs.Handovers

/-!
What operations on fibers, queues and handles leave aside: the drivers and what the host
does for them, the positions of programs, and the names and clones that own handles.
-/

namespace Fibers

/-- What a world has besides fibers, queues, handles and names. -/
structure Aside where
  positions : List Position
  drivers : List Driver
  agenda : Option Agenda
  callsMade : Nat

/-- Besides, what owns handles by name or for good. -/
structure Surroundings extends Aside where
  slots : Names HandleRef
  retained : List HandleRef

namespace World

def aside (w : World) : Aside := ⟨w.positions, w.drivers, w.agenda, w.callsMade⟩

def surroundings (w : World) : Surroundings :=
  { w.aside with slots := w.slots, retained := w.retained }

/-- The handles that the foreign side has pointers to. -/
def boxes (w : World) : List HandleRef := w.slots.values ++ w.retained

section Same

variable {a b : World}

theorem driver?_of_aside (h : a.aside = b.aside) (d : DriverId) : a.driver? d = b.driver? d := by
  rw [driver?, driver?, show a.drivers = b.drivers from congrArg Aside.drivers h]

theorem agenda_of_aside (h : a.aside = b.aside) : a.agenda = b.agenda := congrArg Aside.agenda h

theorem aside_of_surroundings (h : a.surroundings = b.surroundings) : a.aside = b.aside :=
  congrArg Surroundings.toAside h

theorem boxes_of_surroundings (h : a.surroundings = b.surroundings) : a.boxes = b.boxes := by
  rw [boxes, boxes, show a.slots = b.slots from congrArg Surroundings.slots h,
    show a.retained = b.retained from congrArg Surroundings.retained h]

end Same

variable (w : World)

@[simp]
theorem surroundings_emit (name : String) (payload : Datum) : (w.emit name payload).surroundings =
    w.surroundings := rfl

@[simp]
theorem surroundings_tell (event : Event) : (w.tell event).surroundings = w.surroundings := rfl

@[simp]
theorem surroundings_mark (told : Mark) : (w.mark told).surroundings = w.surroundings := rfl

@[simp]
theorem surroundings_setSlot (x : HandleRef) (slot : Slot Fiber Owner Resumption) :
    (w.setSlot x slot).surroundings = w.surroundings := rfl

@[simp]
theorem surroundings_updateScheduler (s : SchedulerId) (g : Scheduler → Scheduler) :
    (w.updateScheduler s g).surroundings = w.surroundings := rfl

@[simp]
theorem surroundings_append (s : SchedulerId) (entry : Runnable) :
    (w.append s entry).surroundings = w.surroundings := rfl

@[simp]
theorem surroundings_release (work : List Debris) :
    (w.release work).surroundings = w.surroundings := by
  rw [release]
  generalize w.handles.release work = result
  obtain ⟨handles, relics⟩ := result
  have hnote : ∀ (u : World), (relics.foldl note u).surroundings = u.surroundings := by
    induction relics with
    | nil => exact fun _ => rfl
    | cons relic rest ih => exact fun u => (ih _).trans (by cases relic <;> rfl)
  exact hnote _

@[simp]
theorem surroundings_disown (s : SchedulerId) : (w.disown s).surroundings = w.surroundings := by
  rw [disown]
  split
  next => rfl
  next => split <;> simp

@[simp]
theorem aside_store (name : String) (x : HandleRef) : (w.store name x).aside = w.aside := by
  rw [store]
  split
  · rfl
  · exact (aside_of_surroundings (surroundings_release ..)).trans rfl

theorem aside_storeOrRelease (name : Option String) (x : HandleRef) :
    (w.storeOrRelease name x).aside = w.aside := by
  cases name with
  | none => exact aside_of_surroundings (surroundings_release ..)
  | some name => exact aside_store ..

theorem surroundings_enqueue (s : SchedulerId) (body : List Action) :
    (w.enqueue s body).2.surroundings = w.surroundings := by
  rw [enqueue]
  split <;> rfl

theorem aside_takeHandle {w' : World} {name : String} {keep : Bool} {x : HandleRef}
    (h : w.takeHandle? name keep = some (x, w')) : w'.aside = w.aside := by
  rw [takeHandle?, Option.map_eq_some_iff] at h
  obtain ⟨handle, -, h⟩ := h
  split at h <;> cases h <;> rfl

theorem aside_resumption {w' : World} {delivery : Delivery} {resumption : Resumption}
    (h : w.resumption? delivery = some (resumption, w')) : w'.aside = w.aside := by
  cases delivery with
  | error => cases h; rfl
  | value source =>
    cases source with
    | scalar => cases h; rfl
    | slot name keep =>
      simp only [resumption?, payload?, Option.map_map, Option.map_eq_some_iff] at h
      obtain ⟨⟨x, u⟩, htaken, h⟩ := h
      cases h
      exact aside_takeHandle w htaken

theorem surroundings_next {w' : World} {s : SchedulerId} {entry : Runnable}
    (h : w.next? s = some (entry, w')) : w'.surroundings = w.surroundings := by
  obtain ⟨queue, -, rfl⟩ := next?_eq h
  rfl

theorem surroundings_supplyStack (s : SchedulerId) : (w.supplyStack s).2.surroundings =
    w.surroundings := by
  rw [supplyStack]
  split
  · rfl
  · dsimp only
    split <;> rfl

theorem surroundings_returnStack (s : SchedulerId) (stack : Stack) :
    (w.returnStack s stack).surroundings = w.surroundings := by
  rw [returnStack]
  split
  · rfl
  · split <;> rfl

theorem surroundings_park (x : HandleRef) (fiber : Fiber) (owner : Owner) :
    (w.park x fiber owner).2.surroundings = w.surroundings := by
  rw [park]
  split
  · rfl
  · split
    · split <;> simp
    · simp
    · simp

theorem surroundings_receive (s : SchedulerId) (fiber : Fiber) (exit : Exit) :
    (w.receive s fiber exit).surroundings = w.surroundings := by
  cases exit with
  | suspended x =>
    have hpark :=
      surroundings_park
      ((w.updateScheduler s Scheduler.countSuspension).tell (.suspended fiber.id)) x fiber
      (.scheduler s)
    rw [receive]
    split
    next hparked => exact (congrArg (fun result => result.2.surroundings) hparked).symm.trans hpark
    next hparked => exact (congrArg (fun result => result.2.surroundings) hparked).symm.trans hpark
  | completed | failed => exact surroundings_returnStack ..
  | panicked => rfl

end World

namespace Machine

variable {m m' : Machine}

theorem surroundings_suspend (m : Machine) (x : HandleRef) :
    (m.suspend x).world.surroundings = m.world.surroundings := by
  rw [suspend]
  split <;> rfl

theorem surroundings_enter (m : Machine) (fiber : Fiber) (resumption : Resumption) :
    (m.enter fiber resumption).world.surroundings = m.world.surroundings := by
  rw [enter.eq_def]
  split
  · split <;> rfl
  · rfl
  · exact World.surroundings_release ..

theorem surroundings_drain (m : Machine) (s : SchedulerId) (ran : Nat) (max : Option Nat) :
    (m.drain s ran max).world.surroundings = m.world.surroundings := by
  rw [drain]
  split
  · rfl
  · split
    next => rfl
    next entry w hnext =>
      have hbefore := World.surroundings_next _ hnext
      cases entry with
      | woken fiber resumption =>
        refine (surroundings_enter ..).trans ?_
        rw [push_world, push_world]
        exact hbefore
      | fresh id body =>
        dsimp only
        rw [start]
        have hsupply := World.surroundings_supplyStack w s
        rw [push_world, withWorld_world]
        split
        next hsupplied =>
          rw [hsupplied] at hsupply
          refine (surroundings_enter ..).trans ?_
          rw [push_world]
          exact hsupply.trans hbefore
        next hsupplied =>
          rw [hsupplied] at hsupply
          exact hsupply.trans hbefore

theorem surroundings_leave (m : Machine) (running : Running) (below : List Running) (exit : Exit) :
    (m.leave running below exit).world.surroundings = m.world.surroundings :=
  World.surroundings_release ..

theorem surroundings_failAwait (m : Machine) (plan : AwaitPlan) (failure : Failure) :
    (m.failAwait plan failure).world.surroundings = m.world.surroundings := by
  rw [failAwait.eq_def]
  split <;> rfl

theorem aside_yieldAwait (m : Machine) (plan : AwaitPlan) (payload : Payload) :
    (m.yieldAwait plan payload).world.aside = m.world.aside := by
  rw [yieldAwait.eq_def]
  split
  · exact World.aside_storeOrRelease ..
  · split <;> rfl

theorem aside_concludeAwait (m : Machine) (x : HandleRef) (plan : AwaitPlan)
    (resumption : Resumption) :
    (m.concludeAwait x plan resumption).world.aside = m.world.aside := by
  cases resumption with
  | error failure => exact World.aside_of_surroundings (surroundings_failAwait ..)
  | value payload =>
    dsimp only [concludeAwait]
    split
    · exact aside_yieldAwait ..
    · exact World.aside_of_surroundings
        ((surroundings_failAwait ..).trans (World.surroundings_release ..))

theorem Delivers.surroundings {s : SchedulerId} {x : HandleRef} {cell : HandleCell}
    {resumption : Resumption} (h : Delivers m s x cell resumption m') :
    m'.world.surroundings = m.world.surroundings := by
  cases h with
  | stored | refused | queued =>
      simp only [goTo_world, World.surroundings_append, World.surroundings_tell,
      World.surroundings_release, World.surroundings_mark, World.surroundings_setSlot]
  | dispatched =>
    simp only [surroundings_enter, goTo_world, World.surroundings_tell, World.surroundings_release,
      World.surroundings_mark, World.surroundings_setSlot]

end Machine

end Fibers
