import Fibers.Proofs.Dispatching
import Fibers.Proofs.Steps

/-!
Soundness. A machine is sound when its stacks are in order and its books are
right with everything that frames and control hold. Whatever a step does, a
sound machine stays sound, in every program.
-/

namespace Fibers

open Asset (cloneOf looseOf shareOf postOf taskOf fiberOf serialOf begunOf unstartedOf
    stackOf unsuitedOf)
open Mark (starts finishes discards vanishes awaits terminates)

/-- What a fiber is worth to whoever enters it: one that starts takes up its claim. -/
def Fiber.charge (fiber : Fiber) : List Asset :=
  match fiber.state with
  | .unstarted _ => .claim fiber.id fiber.home :: fiber.assets
  | _ => fiber.assets

theorem Fiber.weigh_charge (fiber : Fiber) (hhome : fiber.home = none) {f : Asset → Nat}
    (hf : Asset.Fair f) : weigh f fiber.charge = weigh f fiber.assets := by
  obtain ⟨serial, id, home, stack, state⟩ := fiber
  subst hhome
  cases state with
  | unstarted body => simp [charge, hf.strangers]
  | suspended | finished => rfl

theorem Fiber.Rests.charge_eq {fiber : Fiber} {s : SchedulerId} (h : fiber.Rests (some s)) :
    fiber.charge = fiber.assets := by
  have hsuspended := h.suspended rfl
  rw [charge]
  split
  next hstate => simp [isSuspended, isStarted, hstate] at hsuspended
  next => rfl

namespace World

theorem Accepts.mono {byHand : Prop} {w w' : World} {inFiber : Bool} {control : Control}
    {frames : List Frame} (h : w.Accepts byHand inFiber control frames) (hw : w.Keeps w') :
    w'.Accepts byHand inFiber control frames := by
  unfold Accepts at h ⊢
  split
  next =>
    split
    next => exact ⟨h.1, h.2.mono hw⟩
    next => exact h
    next =>
      simp only at h
      exact h
  next => exact h
  next => exact h
  next => exact h
  next => exact ⟨h.1.mono hw, h.2⟩
  next =>
    split
    next => exact h
    next =>
      simp only at h
      obtain ⟨hfiber, ⟨s, hasks⟩, hdrain⟩ := h
      exact ⟨hfiber, ⟨s, hasks.mono hw⟩, hdrain⟩

/-- Whoever asked for a run takes the number of transfers. -/
theorem Asks.accepts {byHand : Prop} {w : World} {s : SchedulerId} {max : Option Nat}
    {frames : List Frame} (h : w.Asks s max frames) (ran : Nat) :
    w.Accepts byHand false (.answer (.ok ran)) frames := by
  have hok : ∃ n, (.ok ran : Except SchedulerFault Nat) = .ok n := ⟨ran, rfl⟩
  unfold Asks at h
  split at h
  next => exact h.2
  next =>
    obtain ⟨rfl, h⟩ := h
    exact ⟨rfl, ⟨s, rfl, h⟩, fun _ _ _ => hok⟩
  next =>
    obtain ⟨rfl, h⟩ := h
    exact ⟨rfl, ⟨s, rfl, h⟩, fun _ _ _ => hok⟩
  next =>
    obtain ⟨rfl, h⟩ := h
    exact ⟨rfl, ⟨s, rfl, h⟩, fun _ _ _ => hok⟩
  next => exact h.elim

theorem restore_of_current {w : World} {fiber : Current} (h : w.current = some fiber)
    (outer : Option Current) : w.restore fiber outer = { w with current := outer } := by
  rw [restore, if_pos h]

theorem keeps_current (w : World) (current : Option Current) : w.Keeps { w with current } :=
  ⟨fun h => h, fun h => h⟩

theorem steady_next {w w' : World} {s : SchedulerId} {entry : Runnable}
    (h : w.next? s = some (entry, w')) : w.Steady w' := by
  obtain ⟨queue, -, rfl⟩ := next?_eq h
  exact .of_same rfl rfl rfl rfl

/-- A task that gets no stack has come to its end. -/
theorem Sound.unstarted {shown : HandleRef → Prop} {w : World} {out : List Asset} {s : SchedulerId}
    {id : FiberId} (h : w.Sound shown (.claim id (some s) :: out)) :
    (w.mark (.unstarted s id)).Sound shown out := by
  refine h.mark _ (fun y => Nat.le_add_left _ _) (fun y => ?_) (fun t => ?_) (fun t number => ?_)
    (fun t number => ?_) (fun y => ?_) (fun _ => rfl) (fun _ _ => rfl) (fun n => ?_)
    (fun label => ?_)
    fun suits => ?_
  · simp [cloneOf]
  · simp [shareOf]
  · simp [taskOf, vanishes, starts]
  · simp only [discards, finishes, starts, weigh_cons, fiberOf, Nat.add_zero, Option.some.injEq]
    exact Nat.add_comm _ _
  · simp [postOf, awaits]
  · simp [serialOf, begunOf, unstartedOf, terminates]
  · simp [stackOf]
  · simp [unsuitedOf]

/-- A fiber that ends leaves its first payload, and is in the history. -/
theorem Sound.ended {shown : HandleRef → Prop} {w : World} {out : List Asset}
    {running : Running} {exit : Exit} (h : w.Sound shown (running.first.assets ++
      (.loose (.fiber running.serial running.id running.home) :: out))) :
    ((w.release running.first.debris).mark (.ended (running.leave .finished) exit)).Sound
    shown out := by
  refine (h.shift (shift_release w running.first.debris)).mark _ (fun y => ?_) (fun y => ?_)
    (fun t => ?_) (fun t id => ?_) (fun t id => ?_) (fun y => ?_) (fun _ => rfl) (fun _ _ => rfl)
    (fun n => ?_) (fun label => ?_) fun suits => ?_
  · exact Nat.le_add_left _ _
  · simp [cloneOf]
  · simp [shareOf]
  · simp [taskOf, vanishes, starts]
  · simp only [discards, finishes, starts, Running.leave, List.nil_append, weigh_cons, fiberOf,
      Nat.add_zero]
    exact Nat.add_comm _ _
  · simp [postOf, awaits]
  · simp only [List.nil_append, weigh_cons, serialOf, begunOf, unstartedOf, terminates,
      Running.leave, Nat.add_zero]
    exact Nat.le_of_eq (Nat.add_comm _ _)
  · simp [stackOf]
  · simp [unsuitedOf]

end World

namespace Machine

variable {byHand : Prop} {shown : HandleRef → Prop} {m m' : Machine} {frames : List Frame}
  {w : World} {control : Control} {s : SchedulerId} {x : HandleRef} {fiber : Fiber}
  {resumption : Resumption} {out : List Asset}

/-- The machine is in order, its books are right, and handles of host calls are kept
from programs, except for those that are shown. -/
structure Secures (byHand : Prop) (shown : HandleRef → Prop) (m : Machine) :
    Prop extends Shaped byHand m where
  kept : m.world.Sound shown m.assets

/-- Programs that transfer into fibers by hand may come by every handle. -/
abbrev Sound (byHand : Prop) (m : Machine) : Prop := m.Secures byHand fun _ => byHand

theorem weigh_levels (m : Machine) (f : Asset → Nat) :
    weigh f (framesAssets m.top) + weigh f m.beneath =
      weigh f (m.running.flatMap Running.assets) + weigh f (framesAssets m.root) := by
  obtain ⟨world, running, root, control⟩ := m
  cases running with
  | nil =>
    simp only [top, stackUnder, beneath, weigh_nil, List.flatMap_nil]
    omega
  | cons running below =>
    simp only [top, stackUnder, beneath, List.flatMap_cons, Running.assets, fiberAssets, weigh_cons,
      weigh_append]
    omega

/-- A step that stays on its level. -/
theorem Grounded.sound_goTo (h : m.Grounded byHand) (hsteady : m.world.Steady w)
    (haccepts : w.Accepts byHand m.inFiber control frames)
    (hkept : w.Sound shown (framesAssets frames ++ control.assets ++ m.beneath)) :
    (m.goTo frames w control).Secures byHand shown where
  toGrounded := h.goTo hsteady.current hsteady.toKeeps frames control
  accepts := by rwa [goTo_inFiber, goTo_top, goTo_control, goTo_world]
  kept := by rwa [assets, goTo_top, goTo_control, goTo_beneath, goTo_world]

/-! ### Entering and leaving fibers -/

/-- A fiber is entered with some of its own frames. -/
theorem Grounded.sound_occupy (h : m.Grounded byHand)
    (hentered : m.world.Entered byHand m.inFiber fiber.home m.top) {first : Payload}
    (haccepts : ∀ w : World, w.Accepts byHand true control frames)
    (hkept : m.world.Sound shown
      (.holds fiber.stack fiber.home :: fiberAssets fiber.serial fiber.id fiber.home frames first ++
        control.assets ++ (framesAssets m.top ++ m.beneath))) :
    (m.occupy fiber first frames control).Secures byHand shown where
  current := rfl
  nested := ⟨h.current, hentered.mono ⟨id, id⟩, h.nested.mono ⟨id, id⟩⟩
  accepts := haccepts _
  kept := by
    refine World.Sound.setCurrent (hkept.recount fun f _ => ?_) _
    have := weigh_levels m f
    simp only [occupy, assets, top, stackUnder, beneath, fiberAssets, weigh_cons, weigh_append]
      at this ⊢
    omega

/-- Control is transferred into a fiber. -/
theorem Grounded.sound_enter (h : m.Grounded byHand)
    (hentered : m.world.Entered byHand m.inFiber fiber.home m.top) (hrest : fiber.AtRest)
    (hkept : m.world.Sound shown
      (fiber.charge ++ resumption.assets ++ (framesAssets m.top ++ m.beneath))) :
    (m.enter fiber resumption).Secures byHand shown := by
  rw [enter]
  split
  next body hstate =>
    have hcharge : ∀ f, Asset.Fair f →
        weigh f fiber.charge = f (.holds fiber.stack fiber.home) + f
          (.loose (.fiber fiber.serial fiber.id fiber.home)) := by
      intro f hf
      simp only [Fiber.charge, Fiber.assets, hstate, FiberState.assets, weigh_cons,
        weigh_nil, hf.births]
      omega
    cases resumption with
    | value first =>
      refine h.sound_occupy hentered (fun _ => by simp [World.Accepts, Frame.isPlain])
        (hkept.recount fun f hf => ?_)
      have := hcharge f hf
      simp only [fiberAssets, framesAssets_cons, Frame.assets, Resumption.assets,
        Resumption.debris, Payload.assets, Control.assets, List.map_nil, loosen_nil,
          List.nil_append,
        framesAssets_nil, weigh_cons, weigh_append, weigh_nil]
      omega
    | error failure =>
      refine h.sound_occupy hentered (fun _ => by simp [World.Accepts])
        (hkept.recount fun f hf => ?_)
      have := hcharge f hf
      simp only [fiberAssets, Resumption.assets, Resumption.debris, Payload.unit, Payload.assets,
        Payload.debris, Control.assets, loosen_nil, List.nil_append, framesAssets_nil, weigh_cons,
        weigh_append, weigh_nil]
      omega
  next frames first hstate =>
    refine h.sound_occupy hentered (fun _ => ⟨rfl, hrest frames first hstate⟩) ?_
    simpa only [Fiber.charge, Fiber.assets, hstate, FiberState.assets, Control.assets] using hkept
  next hstate =>
    have hcharge : fiber.charge = fiber.assets := by rw [Fiber.charge, hstate]
    rw [hcharge] at hkept
    have hrelease := World.shift_release m.world resumption.debris
    have hheld : m.world.Sound shown
        (resumption.assets ++ (fiber.assets ++ (framesAssets m.top ++ m.beneath))) :=
      hkept.recount fun f _ => by simp only [weigh_append]; omega
    have hsteady := (hheld.drift hrelease).steady
    simp only [withWorld_eq, goTo_withControl]
    refine h.sound_goTo hsteady ⟨hentered.mono hsteady.toKeeps, hrest, ?_⟩
      ((hheld.shift hrelease).recount fun f _ => ?_)
    · simp [Fiber.isSuspended, Fiber.isFinished, hstate]
    · simp only [Control.assets, Exit.assets, weigh_append, weigh_nil]
      omega

/-- The innermost fiber suspends on a handle. -/
theorem Grounded.sound_suspend (h : m.Grounded byHand) (hfiber : m.inFiber = true)
    (hwaiting : WaitingStack m.top)
    (hkept : m.world.Sound shown (.kept x :: (framesAssets m.top ++ m.beneath))) :
    (m.suspend x).Secures byHand shown := by
  have hlevels := weigh_levels m
  obtain ⟨world, running, root, control⟩ := m
  cases running with
  | nil => cases hfiber
  | cons running below =>
    obtain ⟨houter, hentered, hnested⟩ := h.nested
    have hlevels' := weigh_levels (Machine.suspend ⟨world, running :: below, root, control⟩ x)
    refine ⟨⟨⟨houter, hnested.mono ⟨id, id⟩⟩, hentered.mono ⟨id, id⟩, ?_, ?_⟩, ?_⟩
    · intro frames first hstate
      cases hstate
      exact hwaiting
    · simp [Running.leave, Fiber.isSuspended, Fiber.isStarted, Fiber.isFinished]
    · refine World.Sound.setCurrent (hkept.recount fun f _ => ?_) _
      have := hlevels f
      have := hlevels' f
      simp only [suspend, assets, Control.assets, Exit.assets, Running.leave, Fiber.assets,
        FiberState.assets, Running.assets, List.flatMap_cons, weigh_cons, weigh_append,
          weigh_nil] at *
      omega

/-- The innermost fiber ends. -/
theorem Grounded.sound_leave (h : m.Grounded byHand) {running : Running}
    {below : List Running} {exit : Exit} (hrunning : m.running = running :: below)
    (htop : m.top = []) (hexit : ∀ x, exit ≠ .suspended x) (hkept : m.world.Sound shown m.beneath) :
    (m.leave running below exit).Secures byHand shown := by
  obtain ⟨world, levels, root, control⟩ := m
  cases hrunning
  obtain ⟨houter, hentered, hnested⟩ := h.nested
  have hcurrent : world.current = some running.current := h.current
  have hframes : running.frames = [] := htop
  have hassets : exit.assets = [] := by
    cases exit with
    | suspended x => exact absurd rfl (hexit x)
    | completed | failed | panicked => rfl
  have hkept' : World.Sound shown { world with current := running.outer }
      (running.first.assets ++ (.loose (.fiber running.serial running.id running.home) ::
        (.holds running.stack running.home ::
          (below.flatMap Running.assets ++ framesAssets root)))) := by
    refine World.Sound.setCurrent (hkept.recount fun f _ => ?_) _
    simp only [beneath, weigh_cons, weigh_append]
    omega
  have hsteady : World.Steady { world with current := running.outer }
      ((World.release { world with current := running.outer } running.first.debris).mark
        (.ended (running.leave .finished) exit)) :=
    (World.steady_release _ _).trans (World.steady_mark _ _)
  have hkeeps := (world.keeps_current running.outer).trans hsteady.toKeeps
  have hlevels :=
    weigh_levels (Machine.leave ⟨world, running :: below, root, control⟩ running below exit)
  simp only [leave, World.restore_of_current hcurrent] at hlevels ⊢
  refine ⟨⟨⟨hsteady.current.trans houter, hnested.mono hkeeps⟩, hentered.mono hkeeps, ?_, ?_⟩, ?_⟩
  · intro frames first hstate
    cases hstate
  · cases exit with
    | suspended x => exact absurd rfl (hexit x)
    | completed | failed | panicked =>
      simp [Running.leave, Fiber.isSuspended, Fiber.isStarted, Fiber.isFinished]
  · refine (World.Sound.ended hkept').recount fun f _ => ?_
    have := hlevels f
    simp only [assets, Control.assets, hassets, Running.leave, Fiber.assets,
      FiberState.assets, weigh_append, weigh_cons, weigh_nil] at this ⊢
    omega

/-! ### Deliveries and the run loop -/

/-- The entry frames of the run loop own nothing themselves. -/
theorem framesAssets_dispatching (s t : SchedulerId) (ran : Nat) (max : Option Nat)
    (frames : List Frame) :
    framesAssets (.dispatching s :: .draining t ran max :: frames) = framesAssets frames := rfl

/-- The run loop enters a fiber. -/
theorem Grounded.sound_dispatch (h : m.Grounded byHand) (hfiber : m.inFiber = false)
    {max : Option Nat} (hasks : m.world.Asks s max m.top) (hsteady : m.world.Steady w) (ran : Nat)
    (hhome : fiber.home = some s) (hrest : fiber.AtRest)
    (hkept : w.Sound shown
      (fiber.charge ++ resumption.assets ++ (framesAssets m.top ++ m.beneath))) :
    ((m.goTo (.dispatching s :: .draining s ran max :: m.top) w control).enter fiber
      resumption).Secures
      byHand shown := by
  refine (h.goTo hsteady.current hsteady.toKeeps _ control).sound_enter ?_ hrest ?_
  · rw [goTo_inFiber, goTo_top, goTo_world]
    exact ⟨hfiber, hhome, rfl, hasks.mono hsteady.toKeeps⟩
  · rwa [goTo_top, goTo_beneath, goTo_world, framesAssets_dispatching]

theorem Grounded.sound_deliver (h : m.Grounded byHand)
    (hanswers : ∀ result, m.world.Accepts byHand m.inFiber (.answer result) m.top)
    (hasks : m.inFiber = false → m.world.Asks s none m.top)
    {scheduler : Scheduler} (hs : m.world.scheduler? s = some scheduler) {a : Asset}
    (hclone : a.IsClone x)
    (hkept : m.world.Sound shown (a :: (resumption.assets ++ (framesAssets m.top ++ m.beneath)))) :
    (m.deliver s x resumption).Secures byHand shown := by
  have hpos : 0 <
      weigh (cloneOf x) (a :: (resumption.assets ++ (framesAssets m.top ++ m.beneath))) := by
    rcases hclone with rfl | rfl <;> simp only [weigh_cons, cloneOf, if_true] <;> omega
  obtain ⟨cell, hcell, -⟩ :=
    hkept.balanced.clones_pos (Nat.lt_of_lt_of_le hpos (Nat.le_add_left _ _))
  have hstay : ∀ (w : World) (result : Except SchedulerFault Nat), m.world.Steady w →
      w.Sound shown (framesAssets m.top ++ m.beneath) →
      (m.goTo m.top w (.answer result)).Secures byHand shown := fun w result hsteady hsound =>
    h.sound_goTo hsteady ((hanswers result).mono hsteady.toKeeps)
      (by simpa only [Control.assets, List.append_nil] using hsound)
  have hdelivers := m.delivers s hcell resumption
  generalize m.deliver s x resumption = m' at hdelivers
  cases hdelivers with
  | stored event hslot hquiet =>
    have hwakes : m.world.Wakes x cell (.scheduler s) resumption _ := .stored hslot
    exact hstay _ _ (hwakes.steady.trans (World.steady_tell _ _))
      ((hkept.wakes hclone hcell hwakes).tell _)
  | refused fault event hslot hother hquiet =>
    have hwakes : m.world.Wakes x cell (.scheduler s) resumption _ := .refused fault hslot hother
    exact hstay _ _ (hwakes.steady.trans (World.steady_tell _ _))
      ((hkept.wakes hclone hcell hwakes).tell _)
  | queued fiber event hslot hcurrent hquiet =>
    have hwakes : m.world.Wakes x cell (.scheduler s) resumption _ := .met fiber hslot
    have hrests := hkept.orderly.rests_of_met hcell hslot
    have hs' := hs
    rw [World.scheduler?, ← hwakes.schedulers] at hs'
    have hsteady := hwakes.steady.trans (World.steady_tell _ event)
    refine hstay _ _ (hsteady.trans (World.steady_append _ _ _)) ?_
    exact World.Sound.append ((hkept.wakes hclone hcell hwakes).tell event) hs' hrests
  | dispatched fiber event hslot hcurrent hquiet =>
    have hwakes : m.world.Wakes x cell (.scheduler s) resumption _ := .met fiber hslot
    have hfiber : m.inFiber = false := by rw [← h.current_isSome, hcurrent]; rfl
    have hrests := hkept.orderly.rests_of_met hcell hslot
    have hsteady := hwakes.steady.trans (World.steady_tell _ event)
    refine h.sound_dispatch hfiber (hasks hfiber) (hsteady.trans (World.steady_mark _ _)) 0
      hrests.home_eq hrests.atRest ?_
    rw [hrests.charge_eq]
    exact ((hkept.wakes hclone hcell hwakes).tell event).remark _
      (.inr ⟨s, fiber, resumption, .inr rfl⟩)

/-- A run begins, or is refused inside a fiber. -/
theorem Grounded.sound_run (h : m.Grounded byHand) {max : Option Nat}
    (hasks : m.inFiber = false → m.world.Asks s max m.top)
    (hrefused : m.inFiber = true → ∀ fault,
      m.world.Accepts byHand m.inFiber (.answer (.error fault)) m.top)
    (hkept : m.world.Sound shown (framesAssets m.top ++ m.beneath)) :
    (m.run s max).Secures byHand shown := by
  have hcurrent := h.current_isSome
  rw [run]
  split
  next current hid =>
    rw [World.currentId, Option.map_eq_some_iff] at hid
    obtain ⟨running, hrunning, -⟩ := hid
    rw [hrunning] at hcurrent
    rw [withControl_eq]
    exact h.sound_goTo (.refl _) (hrefused hcurrent.symm _)
      (by simpa only [Control.assets, List.append_nil] using hkept)
  next hid =>
    rw [World.currentId, Option.map_eq_none_iff] at hid
    rw [hid] at hcurrent
    rw [push_eq, goTo_advance]
    refine h.sound_goTo (.refl _) ⟨hcurrent.symm, hasks hcurrent.symm⟩ ?_
    simpa only [framesAssets_cons, Frame.assets, Control.assets, List.append_nil, List.nil_append]
      using hkept

/-- A turn of the run loop. -/
theorem Grounded.sound_drain (h : m.Grounded byHand) (hfiber : m.inFiber = false) {max : Option Nat}
    (hasks : m.world.Asks s max m.top)
    (hkept : m.world.Sound shown (framesAssets m.top ++ m.beneath)) (ran : Nat) :
    (m.drain s ran max).Secures byHand shown := by
  have hdrains := m.drains s ran max
  generalize m.drain s ran max = m' at hdrains
  cases hdrains with
  | stops =>
    exact h.sound_goTo (.refl _) (hfiber ▸ hasks.accepts ran)
      (by simpa only [Control.assets, List.append_nil] using hkept)
  | fails hmore hnext hbefore hafter =>
    have htaken := hkept.next hnext
    have hfailed := World.Sound.unstarted (htaken.gain hbefore)
    have hsteady := ((World.steady_next hnext).trans (htaken.drift_gain hbefore).steady).trans
      ((World.steady_mark _ _).trans (hafter.steady hfailed))
    refine h.sound_goTo hsteady ⟨hfiber, hasks.mono hsteady.toKeeps⟩ ?_
    simp only [framesAssets_cons, Frame.assets, Control.assets, List.append_nil, List.nil_append]
    exact hfailed.reckons hafter
  | starts hmore hnext hbefore hid hhome hstate =>
    have htaken := hkept.next hnext
    have hsteady := (World.steady_next hnext).trans (htaken.drift_gain hbefore).steady
    refine h.sound_dispatch hfiber hasks hsteady (ran + 1) hhome ?_ ?_
    · intro frames first hsuspended
      rw [hstate] at hsuspended
      cases hsuspended
    · refine (htaken.gain hbefore).recount fun f _ => ?_
      have hunit : weigh f Resumption.unit.assets = 0 := rfl
      simp only [Fiber.charge, hstate, hid, hhome, Runnable.yield, hunit, weigh_cons,
        weigh_append, weigh_nil]
      omega
  | wakes hmore hnext =>
    obtain ⟨queue, hqueue, -⟩ := World.next?_eq hnext
    have hrests := hkept.orderly.queued s _ _ (hqueue ▸ List.mem_cons_self ..)
    refine h.sound_dispatch hfiber hasks (World.steady_next hnext) (ran + 1) hrests.home_eq
      hrests.atRest ?_
    rw [hrests.charge_eq]
    exact hkept.next hnext

end Machine

end Fibers
