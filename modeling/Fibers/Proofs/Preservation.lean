import Fibers.Proofs.Soundness

/-!
Every step keeps a machine sound. The actions come first, then what frames do
when their turn comes; the step lemma puts them together.
-/

namespace Fibers

open Asset (cloneOf looseOf shareOf postOf taskOf fiberOf serialOf begunOf unstartedOf
    stackOf unsuitedOf)
open Mark (starts finishes discards vanishes awaits terminates)

namespace World

variable {byHand : Prop} {shown : HandleRef → Prop} {w : World} {out : List Asset} {s : SchedulerId}

/-- Code accepts whatever code is told. -/
theorem accepts_code {inFiber : Bool} {control : Control} {frames : List Frame}
    (hcode : control.IsCode) (hplain : PlainStack inFiber frames) :
    w.Accepts byHand inFiber control frames := by
  cases control with
  | advance =>
    unfold Accepts
    simp only
    split
    next => simp [Frame.isPlain] at hplain
    next => simp [Frame.isPlain] at hplain
    next => exact hplain
  | raise | panicking => exact hplain
  | resumed | back | answer => exact hcode.elim

theorem Accepts.of_light {inFiber : Bool} {control : Control} {frame : Frame} {frames : List Frame}
    (h : w.Accepts byHand inFiber control (frame :: frames)) (hlight : frame.IsLight) :
    PlainStack inFiber frames := by
  cases control with
  | advance => cases frame <;> first | exact hlight.elim | exact (plainStack_cons.1 h).2
  | raise | panicking => exact (plainStack_cons.1 h).2
  | resumed => cases frame <;> first | exact hlight.elim | exact h.2.elim | exact h.1 ▸ h.2
  | back => cases frame <;> first | exact hlight.elim | exact h.1.elim
  | answer => cases frame <;> first | exact hlight.elim | exact h | exact h.2.1.choose_spec.elim

/-- A driver stands at the root, on code. -/
theorem Accepts.of_driving {inFiber : Bool} {control : Control} {d : DriverId} {phase : DriverPhase}
    {frames : List Frame} (h : w.Accepts byHand inFiber control (.driving d phase :: frames)) :
    inFiber = false ∧ PlainStack false frames := by
  cases control with
  | advance => exact ⟨h.1, h.2.2⟩
  | raise | panicking => simp [Accepts, Frame.isPlain] at h
  | resumed => exact h.2.elim
  | back => exact h.1.elim
  | answer =>
    obtain ⟨hfiber, ⟨s, hasks⟩, -⟩ := h
    refine ⟨hfiber, ?_⟩
    cases phase <;> first | exact hasks.2.2 | exact hasks.elim

theorem Entered.of_dispatching {inFiber : Bool} {home : Option SchedulerId} {frames : List Frame}
    (h : w.Entered byHand inFiber home (.dispatching s :: frames)) :
    ∃ ran max rest, frames = .draining s ran max :: rest ∧ inFiber = false ∧ home = some s ∧
      w.Asks s max rest := by
  cases frames with
  | nil => exact h.elim
  | cons frame rest =>
    cases frame with
    | draining other ran max =>
      obtain ⟨hfiber, hhome, rfl, hasks⟩ := h
      exact ⟨ran, max, rest, rfl, hfiber, hhome, hasks⟩
    | _ => exact h.elim

theorem Asks.of_completing {max : Option Nat} {d : DriverId} {key : Nat} {fiber : FiberId}
    {frames : List Frame} (h : w.Asks s max (.completing d key fiber :: frames)) :
    ∃ other turns rest, frames = .driving other (.poll turns) :: rest ∧ w.Handing key ∧
      PlainStack false rest := by
  cases frames with
  | nil => exact h.elim
  | cons frame rest =>
    cases frame with
    | driving other phase =>
      cases phase with
      | poll turns => exact ⟨other, turns, rest, rfl, h.2.2.1, h.2.2.2⟩
      | _ => exact h.elim
    | _ => exact h.elim

/-- A driver keeps its scheduler alive. -/
theorem Balanced.fedBy_alive (h : w.Balanced out) {d : DriverId} (hd : w.fedBy d = some s) :
    ∃ scheduler, w.scheduler? s = some scheduler ∧ 0 < scheduler.owners := by
  rw [fedBy, Option.map_eq_some_iff] at hd
  obtain ⟨driver, hdriver, rfl⟩ := hd
  refine h.owners_pos ?_
  have hpos : 0 < weigh (shareOf driver.scheduler) driver.assets := by
    simp only [Driver.assets, weigh_cons, shareOf, if_true]
    omega
  have := le_weigh_of_mem (fun other : Driver => weigh (shareOf driver.scheduler) other.assets)
    (List.mem_of_getElem? hdriver)
  simp only [worth]
  omega

/-- Whoever asks a scheduler for a run keeps it alive. -/
theorem Asks.alive {max : Option Nat} {frames : List Frame} (h : w.Asks s max frames)
    (hbalanced : w.Balanced (framesAssets frames ++ out)) :
    ∃ scheduler, w.scheduler? s = some scheduler ∧ 0 < scheduler.owners := by
  unfold Asks at h
  split at h
  next =>
    obtain ⟨rfl, -⟩ := h
    refine hbalanced.owners_pos ?_
    simp only [framesAssets_cons, Frame.assets, List.cons_append, weigh_cons, shareOf, if_true]
    omega
  next => exact hbalanced.fedBy_alive h.2.1
  next => exact hbalanced.fedBy_alive h.2.1
  next => exact hbalanced.fedBy_alive h.2.1
  next => exact h.elim

/-- An await that came to its resumption has no right to it any more. -/
theorem Sound.awaited {x : HandleRef} (h : w.Sound shown (.post x :: out))
    (resumption : Resumption) : (w.mark (.awaited x resumption)).Sound shown out := by
  refine h.mark _ (fun y => Nat.le_add_left _ _) (fun y => ?_) (fun t => ?_) (fun t id => ?_)
    (fun t id => ?_) (fun y => ?_) (fun _ => rfl) (fun _ _ => rfl) (fun n => ?_) (fun label => ?_)
    fun suits => ?_
  · simp [cloneOf]
  · simp [shareOf]
  · simp [taskOf, vanishes, starts]
  · simp [fiberOf, discards, finishes, starts]
  · simp only [weigh_cons, postOf, awaits]
    omega
  · simp [serialOf, begunOf, unstartedOf, terminates]
  · simp [stackOf]
  · simp [unsuitedOf]

/-- An await keeps one clone of its handle, and shows the others. -/
theorem Sound.openShown (h : w.Sound shown out) {plan : AwaitPlan} (current : FiberId)
    (clones : Nat) (hplan : plan.kind.isHosted = false) :
    (Machine.openAwait w current plan (clones + 1)).2.Sound shown
      (.replicate clones (.loose (.handle w.handles.next)) ++
        (.kept w.handles.next :: .post w.handles.next :: out)) := by
  have hopened : (Machine.openAwait w current plan (clones + 1)).2.Sound shown
      (.post w.handles.next :: ((.kept w.handles.next ::
        .replicate clones (.loose (.handle w.handles.next))) ++ out)) := by
    refine Sound.openAwait (fun y => ?_) (fun f hf => ?_) (fun t => ?_) h current plan ?_
    · simp only [weigh_cons, weigh_replicate, cloneOf]
      split <;> omega
    · rw [weigh_cons, weigh_replicate, hf.kept, hf.handles, Nat.mul_zero]
    · simp [weigh_replicate, shareOf]
    · rw [hplan]
      exact fun hhosted => by cases hhosted
  refine hopened.recount fun f _ => ?_
  simp only [weigh_cons, weigh_append, List.cons_append]
  omega

/-- A handle that is made without an await is shown. -/
theorem Sound.makeShown (h : w.Sound shown out) (id : FiberId) :
    (w.makeHandle id 1).2.Sound shown ([.loose (.handle w.handles.next)] ++ out) := by
  refine Sound.makeHandle (fun y => ?_) (fun f hf => ?_) (fun t => rfl) h id
  · simp only [weigh_cons, weigh_nil, cloneOf, Nat.add_zero]
  · simp [hf.handles]

/-- A scheduler receives a fiber that comes back to it. -/
theorem Sound.receives {fiber : Fiber} {exit : Exit} {w' : World}
    (h : w.Sound shown (fiber.assets ++ exit.assets ++ out)) (hhome : fiber.home = some s)
    (hrest : fiber.AtRest) (hexit : fiber.isSuspended = true ↔ ∃ x, exit = .suspended x)
    (hs : (w.scheduler? s).isSome) (hreceives : w.Receives s fiber exit w') :
    w'.Sound shown out ∧ w.Steady w' := by
  cases hreceives with
  | ended hnone hshift =>
    have hassets : exit.assets = [] := by
      cases exit with
      | suspended x => exact absurd rfl (hnone x)
      | completed | failed | panicked => rfl
    rw [hassets, List.append_nil] at h
    exact ⟨h.reckons hshift, hshift.steady h⟩
  | @parked x cell w₁ w₂ hcell hbefore hsame hparks =>
    have hrests : fiber.Rests (Owner.scheduler s).home := ⟨hhome, hrest, fun _ => hexit.2 ⟨x, rfl⟩⟩
    have h : w.Sound shown ([] ++ (fiber.assets ++ (Exit.suspended x).assets ++ out)) := h
    have hbegun : w₁.Sound shown (.kept x :: (fiber.assets ++ out)) := by
      refine (h.reckons hbefore).recount fun f _ => ?_
      simp only [Exit.assets, weigh_cons, weigh_append, weigh_nil]
      omega
    exact ⟨hbegun.parks (.inl rfl) (hsame ▸ hcell) hrests hparks,
      (hbefore.steady h).trans hparks.steady⟩
  | @handedBack x cell resumption w₁ w₂ hcell hbefore hsame hparks =>
    have hrests : fiber.Rests (Owner.scheduler s).home := ⟨hhome, hrest, fun _ => hexit.2 ⟨x, rfl⟩⟩
    have h : w.Sound shown ([] ++ (fiber.assets ++ (Exit.suspended x).assets ++ out)) := h
    have hbegun : w₁.Sound shown (.kept x :: (fiber.assets ++ out)) := by
      refine (h.reckons hbefore).recount fun f _ => ?_
      simp only [Exit.assets, weigh_cons, weigh_append, weigh_nil]
      omega
    have hs₂ : (w₂.scheduler? s).isSome := by
      have hschedulers : w₂.schedulers = w₁.schedulers := hparks.schedulers
      rw [scheduler?, hschedulers]
      exact hbefore.isSome_scheduler? h s ▸ hs
    obtain ⟨scheduler, hscheduler⟩ := Option.isSome_iff_exists.1 hs₂
    have hsound := hbegun.parks (.inl rfl) (hsame ▸ hcell) hrests hparks
    exact ⟨World.Sound.append hsound hscheduler hrests,
      ((hbefore.steady h).trans hparks.steady).trans (steady_append _ _ _)⟩

end World

theorem Frame.IsCode.isPlain {frame : Frame} (h : frame.IsCode) (inFiber : Bool) :
    frame.isPlain inFiber = true := by
  cases frame <;> first | rfl | exact h.elim

theorem PlainStack.of_code (inFiber : Bool) {frames : List Frame}
    (h : ∀ frame ∈ frames, frame.IsCode) :
    PlainStack inFiber frames :=
  fun frame member => (h frame member).isPlain inFiber

theorem PlainStack.push {inFiber : Bool} {pushed frames : List Frame}
    (hpushed : ∀ frame ∈ pushed, frame.IsCode) (h : PlainStack inFiber frames) :
    PlainStack inFiber (pushed ++ frames) := by
  intro frame member
  rcases List.mem_append.1 member with member | member
  · exact (hpushed frame member).isPlain inFiber
  · exact h frame member

theorem Control.IsCode.assets_eq {control : Control} (h : control.IsCode) :
    control.assets = [] := by
  cases control <;> first | rfl | exact h.elim

/-- What an exit is worth to whoever transferred by hand. -/
def Exit.loosened : Exit → List Asset
  | .suspended handle => [.loose (.handle handle)]
  | _ => []

namespace Machine

variable {byHand : Prop} {shown : HandleRef → Prop} {m m' : Machine} {frames : List Frame}
  {w : World} {control : Control} {s : SchedulerId} {x : HandleRef} {plan : AwaitPlan}
  {held : List Asset}

/-! ### Code -/

/-- Code goes on in a world that is sound. -/
theorem Grounded.sound_code (h : m.Grounded byHand) (hplain : PlainStack m.inFiber frames)
    (hcode : control.IsCode) (hsteady : m.world.Steady w)
    (hkept : w.Sound shown (framesAssets frames ++ m.beneath)) :
    (m.goTo frames w control).Secures byHand shown := by
  refine h.sound_goTo hsteady (World.accepts_code hcode hplain) ?_
  rwa [hcode.assets_eq, List.append_nil]

/-- Code goes on, after something was written down or given away. -/
theorem Grounded.sound_idle (h : m.Grounded byHand) (hplain : PlainStack m.inFiber frames)
    {pushed : List Frame} (hpushed : ∀ frame ∈ pushed, frame.IsCode) (hcode : control.IsCode)
    (hkept : m.world.Sound shown (held ++ (framesAssets frames ++ m.beneath)))
    (hshift : m.world.Shift held w (framesAssets pushed)) :
    (m.goTo (pushed ++ frames) w control).Secures byHand shown := by
  refine h.sound_code (hplain.push hpushed) hcode (hkept.drift hshift).steady ?_
  rw [framesAssets_append, List.append_assoc]
  exact hkept.shift hshift

/-- Nothing is pushed. -/
theorem Grounded.sound_write (h : m.Grounded byHand) (hplain : PlainStack m.inFiber frames)
    (hcode : control.IsCode)
    (hkept : m.world.Sound shown (held ++ (framesAssets frames ++ m.beneath)))
    (hshift : m.world.Shift held w []) : (m.goTo frames w control).Secures byHand shown := by
  have hnone : ∀ frame ∈ ([] : List Frame), frame.IsCode := by simp
  exact h.sound_idle hplain hnone hcode hkept hshift

section Plain

variable (h : m.Grounded byHand) (hplain : PlainStack m.inFiber m.top)

include h hplain

theorem Grounded.sound_suspendAwait (hfiber : m.inFiber = true)
    (hkept : m.world.Sound shown (.kept x :: .post x :: (framesAssets m.top ++ m.beneath))) :
    (m.suspendAwait x plan).Secures byHand shown := by
  rw [suspendAwait, push_eq]
  rw [hfiber] at hplain
  refine (h.goTo rfl (.refl _) _ _).sound_suspend (by rwa [goTo_inFiber]) ?_ ?_
  · rw [goTo_top]
    exact hplain
  · rwa [goTo_top, goTo_beneath, goTo_world]

omit hplain in
theorem Grounded.inFiber_of_current {current : FiberId}
    (hcurrent : m.world.currentId = some current) : m.inFiber = true := by
  rw [World.currentId, Option.map_eq_some_iff] at hcurrent
  obtain ⟨running, hrunning, -⟩ := hcurrent
  rw [← h.current_isSome, hrunning]
  rfl

/-- The register function of an await begins. -/
theorem Grounded.sound_await {current : FiberId} {clones : Nat} (register : List Action)
    (hkept : m.world.Sound shown (framesAssets m.top ++ m.beneath))
    (hplan : plan.kind.isHosted = false) (hcurrent : m.world.currentId = some current)
    (hshift : (openAwait m.world current plan (clones + 1)).2.Shift
      (.replicate clones (.loose (.handle m.world.handles.next))) w []) :
    (m.goTo (.actions register [] :: .registering m.world.handles.next plan :: m.top) w
      .advance).Secures byHand shown := by
  have hready := hkept.openShown current clones hplan
  have hopens : m.world.Steady (openAwait m.world current plan (clones + 1)).2 :=
    .of_same rfl rfl rfl rfl
  have hfiber := h.inFiber_of_current hcurrent
  rw [hfiber] at hplain
  refine h.sound_goTo (hopens.trans (hready.drift hshift).steady) (World.accepts_code trivial ?_) ?_
  · simp only [plainStack_cons, Frame.isPlain, hfiber, true_and]
    exact hplain
  · simpa [Frame.assets, Control.assets] using hready.shift hshift

/-- The innermost fiber suspends on a handle that a program had. -/
theorem Grounded.sound_suspending (hfiber : m.inFiber = true) {raises : Bool}
    (hsteady : m.world.Steady w)
    (hkept : w.Sound shown (.loose (.handle x) :: (framesAssets m.top ++ m.beneath))) :
    ((m.goTo (.suspending raises :: m.top) w .advance).suspend x).Secures byHand shown := by
  rw [hfiber] at hplain
  refine (h.goTo hsteady.current hsteady.toKeeps _ _).sound_suspend (by rwa [goTo_inFiber]) ?_ ?_
  · rw [goTo_top]
    exact hplain
  · rw [goTo_top, goTo_beneath, goTo_world]
    exact hkept.hide

/-- A fiber comes out of a handle by hand, with its resumption. -/
theorem Grounded.sound_handOut {action name : String} {fiber : Fiber} {resumption : Resumption}
    (hsteady : m.world.Steady w) (hrests : fiber.Rests none)
    (hkept : w.Sound shown
      (fiber.assets ++ resumption.assets ++ (framesAssets m.top ++ m.beneath))) :
    ((m.goTo m.top w .advance).handOut action name fiber resumption).Secures byHand shown := by
  rw [handOut, goTo_emit, goTo_withWorld, goTo_world]
  have hshift :=
    (World.shift_emit w action (.list [.text fiber.describe, .text resumption.describe])
    (fiber.assets ++ resumption.assets)).trans
      (((World.shift_bind _ name hrests).beside resumption.assets).trans
        (World.shift_release _ resumption.debris))
  exact h.sound_code hplain trivial (hsteady.trans (hkept.drift hshift).steady) (hkept.shift hshift)

end Plain

/-! ### Actions -/

/-- What an action does keeps the machine sound. -/
theorem Grounded.sound_does {allowed : Action → Prop} (h : m.Grounded byHand)
    (hplain : PlainStack m.inFiber m.top)
    (hhand : ∀ name delivery slot, allowed (.transfer name delivery slot) → byHand)
    (hkept : m.world.Sound shown (framesAssets m.top ++ m.beneath)) (hdoes : Does allowed m m') :
    m'.Secures byHand shown := by
  cases hdoes with
  | idle pushed w control hpushed hcode hshift =>
    have hnone : m.world.Sound shown ([] ++ (framesAssets m.top ++ m.beneath)) := hkept
    exact h.sound_idle hplain hpushed hcode hnone hshift
  | @enqueues _ s body hallowed hs shown =>
    have hsteady : m.world.Steady (m.world.enqueue s body).2 := by
      rw [World.enqueue]
      split
      · exact .refl _
      · exact .of_same rfl rfl rfl rfl
    have hshown := World.shift_emit (m.world.enqueue s body).2 "enqueue" shown []
    have hsound := hkept.enqueue s body
    exact h.sound_code hplain trivial (hsteady.trans (hshown _ hsound.balanced).drift.steady)
      (hsound.gain hshown)
  | asks max reply hshift =>
    have hheld := hkept.gain hshift
    have hsteady := (hshift _ hkept.balanced).drift.steady
    refine (h.goTo hsteady.current hsteady.toKeeps _ _).sound_run ?_ ?_ ?_
    · rw [goTo_inFiber, goTo_top]
      exact fun hfiber => ⟨rfl, hfiber ▸ hplain⟩
    · rw [goTo_inFiber, goTo_top]
      exact fun _ _ => hplain
    · rw [goTo_top, goTo_beneath, goTo_world]
      exact hheld
  | @delivers w s x resumption reply hshift =>
    have hheld := hkept.gain hshift
    have hsteady := (hshift _ hkept.balanced).drift.steady
    obtain ⟨scheduler, hs, -⟩ := hheld.balanced.owners_pos (s := s)
      (by simp only [List.cons_append, weigh_cons, shareOf, if_true]; omega)
    refine (h.goTo hsteady.current hsteady.toKeeps _ _).sound_deliver ?_ ?_ hs (.inr rfl) ?_
    · rw [goTo_inFiber, goTo_top]
      exact fun _ => hplain
    · rw [goTo_inFiber, goTo_top]
      exact fun hfiber => ⟨rfl, hfiber ▸ hplain⟩
    · rw [goTo_top, goTo_beneath, goTo_world]
      refine hheld.recount fun f _ => ?_
      simp only [framesAssets_cons, Frame.assets, List.cons_append, weigh_cons, weigh_append,
        List.nil_append]
      omega
  | awaits clones register hplan hcurrent hshift =>
    exact h.sound_await hplain register hkept hplan hcurrent hshift
  | @issues d w work plan current agenda huses hplan hd hshift hcurrent hagenda =>
    have hheld := hkept.gain hshift
    have hsteady := (hshift _ hkept.balanced).drift.steady
    have hbefore : m.world.currentId = some current := by rwa [World.currentId, ← hsteady.current]
    have hfiber := h.inFiber_of_current hbefore
    have hissued : m.world.Steady (w.issued agenda current d work plan) :=
      hsteady.trans (World.steady_issued hagenda d work)
    refine (h.goTo hissued.current hissued.toKeeps _ _).sound_suspendAwait ?_ ?_ ?_
    · rwa [goTo_inFiber, goTo_top]
    · rwa [goTo_inFiber]
    · rw [goTo_top, goTo_beneath, goTo_world]
      exact hheld.issued hagenda d
  | @strands d w w' work plan current panic hplan hshift hcurrent hagenda hafter =>
    have hheld := hkept.gain hshift
    have hopened : (openAwait w current plan 2).2.Sound shown
        ((.post w.handles.next :: .kept w.handles.next :: .kept w.handles.next ::
          work.ending.assets) ++ (framesAssets m.top ++ m.beneath)) := by
      refine (hheld.openHosted current plan).recount fun f _ => ?_
      simp only [weigh_cons, weigh_append, List.cons_append]
      omega
    have hsteady :=
      ((hshift _ hkept.balanced).drift.steady.trans (World.steady_openAwait w current plan 2)).trans
      (hopened.drift hafter).steady
    exact h.sound_code hplain trivial hsteady (hopened.shift hafter)
  | @waits d plan current huses hplan hd hcurrent =>
    have hfiber := h.inFiber_of_current hcurrent
    have hsteady : m.world.Steady (m.world.listed current d plan) := m.world.steady_listed d
    refine (h.goTo hsteady.current hsteady.toKeeps _ _).sound_suspendAwait ?_ ?_ ?_
    · rwa [goTo_inFiber, goTo_top]
    · rwa [goTo_inFiber]
    · rw [goTo_top, goTo_beneath, goTo_world]
      exact hkept.listed hd
  | drives d hd hcurrent hagenda =>
    have hfiber : m.inFiber = false := by rw [← h.current_isSome, hcurrent]; rfl
    rw [hfiber] at hplain
    refine h.sound_goTo (World.steady_openAgenda m.world) ⟨hfiber, by simp, hplain⟩ ?_
    simpa [Frame.assets, Control.assets] using hkept.openAgenda hagenda
  | @drivers position s hs =>
    exact h.sound_code hplain trivial (World.steady_staffed m.world position s) (hkept.staffed hs)
  | suspends hallowed hshift hcurrent =>
    refine h.sound_suspending hplain ?_ (hshift _ hkept.balanced).drift.steady (hkept.gain hshift)
    rwa [← h.current_isSome]
  | @makes slot id w hallowed hshift =>
    have hmade := hkept.makeShown id
    have hmakes : m.world.Steady (m.world.makeHandle id 1).2 := .of_same rfl rfl rfl rfl
    exact h.sound_code hplain trivial (hmakes.trans (hmade.drift hshift).steady)
      (hmade.shift hshift)
  | @parks w x fiber slot keep name owner hallowed hrests hshift =>
    have hheld := hkept.gain hshift
    have hsteady := (hshift _ hkept.balanced).drift.steady
    obtain ⟨cell, hcell, -⟩ := hheld.balanced.clones_pos (x := x)
      (by simp only [List.cons_append, weigh_cons, cloneOf, if_true]; omega)
    have hparks := World.parks hcell fiber (.caller owner)
    have hsound := World.Sound.parks (.inr rfl) (by simpa using hheld) hcell hrests hparks
    have hparked := hsteady.trans hparks.steady
    generalize w.park x fiber (.caller owner) = result at hparks hsound hparked
    obtain ⟨_ | ⟨other, resumption⟩, w'⟩ := result
    · rw [parkedByHand, goTo_withWorld, goTo_emit]
      have hshown := w'.shift_emit "park" (.text "parked") []
      exact h.sound_code hplain trivial (hparked.trans (hshown _ hsound.balanced).drift.steady)
        (hsound.gain hshown)
    · have hother : other = fiber := by cases hparks <;> rfl
      subst hother
      rw [parkedByHand, goTo_withWorld]
      exact h.sound_handOut hplain hparked hrests hsound
  | @wakes w x resumption slot keep name owner delivery hallowed hshift =>
    have hheld := hkept.gain hshift
    have hsteady := (hshift _ hkept.balanced).drift.steady
    obtain ⟨cell, hcell, -⟩ := hheld.balanced.clones_pos (x := x)
      (by simp only [List.cons_append, weigh_cons, cloneOf, if_true]; omega)
    have hwakes := World.wakes hcell (.caller owner) resumption
    have hsound := World.Sound.wakes (.inr rfl) hheld hcell hwakes
    have hwoken := hsteady.trans hwakes.steady
    have hrests : ∀ fiber, cell.slot = .parked fiber (.caller owner) → fiber.Rests none :=
      fun fiber hslot => hheld.orderly.rests_of_met hcell hslot
    have hstay : ∀ w' payload, m.world.Steady w' →
        w'.Sound shown (framesAssets m.top ++ m.beneath) →
        (m.goTo m.top (w'.emit "wake" payload) .advance).Secures byHand shown := by
      intro w' payload hw hkept'
      have hshown := w'.shift_emit "wake" payload []
      exact h.sound_code hplain trivial (hw.trans (hshown _ hkept'.balanced).drift.steady)
        (hkept'.gain hshown)
    generalize w.wake x (.caller owner) resumption = result at hwakes hsound hwoken
    cases hwakes with
    | stored hslot =>
      rw [wokenByHand, goTo_withWorld, goTo_emit]
      exact hstay _ _ hwoken hsound
    | refused fault hslot hother =>
      rw [wokenByHand, goTo_withWorld, goTo_emit]
      exact hstay _ _ hwoken hsound
    | met fiber hslot =>
      rw [wokenByHand, goTo_withWorld]
      exact h.sound_handOut hplain hwoken (hrests fiber hslot) hsound
  | @transfers w fiber resumption name slot delivery hallowed hrests hshift =>
    have hsteady := (hshift _ hkept.balanced).drift.steady
    refine (h.goTo hsteady.current hsteady.toKeeps _ _).sound_enter ?_ hrests.atRest ?_
    · rw [goTo_inFiber, goTo_top]
      exact ⟨hhand _ _ _ hallowed, hrests.home_eq, hplain⟩
    · rw [goTo_top, goTo_beneath, goTo_world]
      refine (hkept.gain hshift).recount fun f hf => ?_
      have := fiber.weigh_charge hrests.home_eq hf
      simp only [framesAssets_cons, Frame.assets, weigh_append, List.nil_append]
      omega

/-! ### Awaits that come back -/

/-- An await comes to its resumption: the value is kept, shown or released. -/
theorem concludeAwait_eq (m : Machine) (x : HandleRef) (plan : AwaitPlan)
    (resumption : Resumption) :
    ∃ w control, m.concludeAwait x plan resumption = m.goTo m.top w control ∧ control.IsCode ∧
      (m.world.mark (.awaited x resumption)).Shift resumption.assets w [] := by
  have hfail : ∀ w failure, (m.world.mark (.awaited x resumption)).Shift resumption.assets w [] →
      ∃ w' control, (m.withWorld w).failAwait plan failure = m.goTo m.top w' control ∧
        control.IsCode ∧ (m.world.mark (.awaited x resumption)).Shift resumption.assets w' [] := by
    intro w failure hshift
    obtain ⟨w', control, heq, hcode, hfailed⟩ := (m.withWorld w).failAwait_eq plan failure
    rw [withWorld_eq, goTo_top, goTo_goTo] at heq
    exact ⟨w', control, by rw [withWorld_eq, heq], hcode, hshift.trans (hfailed [])⟩
  have hshow : ∀ w payload, (m.world.mark (.awaited x resumption)).Shift resumption.assets w [] →
      ∃ w' control, ((m.withWorld w).emit "got" payload).advance = m.goTo m.top w' control ∧
        control.IsCode ∧ (m.world.mark (.awaited x resumption)).Shift resumption.assets w' [] :=
    fun w payload hshift => ⟨w.emit "got" payload, .advance,
      by rw [withWorld_eq, goTo_emit, goTo_advance], trivial,
      hshift.trans (World.shift_emit _ _ _ _)⟩
  rw [concludeAwait.eq_def]
  cases resumption with
  | error failure => exact hfail _ failure (.refl _ _)
  | value payload =>
    simp only [withWorld_withWorld, withWorld_world]
    split
    next =>
      rw [yieldAwait.eq_def]
      cases payload with
      | handle handle => exact hshow _ _ (World.shift_storeOrRelease _ plan.keepIn handle)
      | scalar value =>
        have hsame := World.Shift.refl (m.world.mark (.awaited x (.value (.scalar value)))) []
        simp only
        split
        next =>
          rw [yieldPointer]
          exact hshow _ _ (World.shift_returned _ "await" none [])
        next => exact hshow _ _ hsame
        next => exact hshow _ _ hsame
        next => exact hshow _ _ hsame
    next => exact hfail _ _ (World.shift_release _ payload.debris)

/-- What a fiber that is transferred into by hand comes back with is shown. -/
theorem transferred_eq (m : Machine) (name : String) (slot : Option String)
    {fiber : Fiber} (exit : Exit) (hrests : fiber.Rests none) :
    ∃ w, m.transferred name slot fiber exit = m.goTo m.top w .advance ∧
      m.world.Shift (fiber.assets ++ exit.loosened) w [] := by
  have hbind := World.shift_bind m.world name hrests
  have hshow : ∀ payload, exit.loosened = [] →
      ∃ w, (((m.withWorld (m.world.bind name fiber)).emit "co_transfer" payload).advance) =
        m.goTo m.top w .advance ∧ m.world.Shift (fiber.assets ++ exit.loosened) w [] := by
    intro payload hnone
    rw [hnone, List.append_nil, withWorld_eq, goTo_emit, goTo_advance]
    exact ⟨_, rfl, hbind.trans (World.shift_emit _ _ payload [])⟩
  rw [transferred.eq_def]
  cases exit with
  | suspended x =>
    simp only
    rw [withWorld_eq m, goTo_emit, goTo_withWorld, goTo_advance]
    refine ⟨_, rfl, ?_⟩
    have hshown := (hbind.beside [.loose (.handle x)]).trans (World.shift_emit _ "co_transfer"
      (.list [.text "suspended", .text ((m.world.bind name fiber).describe x)]) _)
    exact hshown.trans (World.shift_storeOrRelease _ slot x)
  | completed => exact hshow _ rfl
  | failed failure => exact hshow _ rfl
  | panicked panic => exact hshow _ rfl

/-- A call whose outcome has been handed over goes. -/
theorem completed_eq (m : Machine) (d : DriverId) (key : Nat) (fiber : FiberId)
    (result : Except SchedulerFault Nat) :
    ∃ w, m.completed d key fiber result = m.goTo m.top
        ((w.updateAgenda fun agenda => agenda.remove key).callOver d) .advance ∧
      ∀ out, m.world.Shift out w out := by
  rw [completed.eq_def]
  simp only [withWorld_eq, goTo_advance]
  cases result with
  | ok ran => exact ⟨_, rfl, fun out => .refl _ out⟩
  | error fault => exact ⟨_, rfl, fun out => World.shift_tell _ (Event.isQuiet_callLost _ _) out⟩

/-! ### Steps -/

theorem Secures.kept_of_top (h : m.Secures byHand shown) {frame : Frame}
    (htop : m.top = frame :: frames) :
    m.world.Sound shown
      (frame.assets ++ m.control.assets ++ (framesAssets frames ++ m.beneath)) := by
  refine h.kept.recount fun f _ => ?_
  simp only [assets, htop, framesAssets_cons, weigh_append]
  omega

/-- What a fiber that comes back brings with it. -/
theorem Secures.kept_of_back (h : m.Secures byHand shown) {fiber : Fiber} {exit : Exit}
    (hcontrol : m.control = .back fiber exit) :
    m.world.Sound shown (fiber.assets ++ (exit.assets ++ (framesAssets m.top ++ m.beneath))) := by
  refine h.kept.recount fun f _ => ?_
  simp only [assets, hcontrol, Control.assets, weigh_append]
  omega

/-- A scheduler that takes back one of its fibers is alive, and so is the handle of the fiber. -/
theorem Secures.receives (h : m.Secures byHand shown) {s : SchedulerId}
    {fiber : Fiber} {exit : Exit} (htop : m.top = .dispatching s :: frames)
    (hcontrol : m.control = .back fiber exit) :
    (m.world.scheduler? s).isSome ∧
    m.world.Receives s fiber exit (m.world.receive s fiber exit) := by
  have haccepts := h.accepts
  rw [htop, hcontrol] at haccepts
  obtain ⟨hentered, -, hexit⟩ := haccepts
  obtain ⟨ran, max, rest, rfl, -, hhome, hasks⟩ := hentered.of_dispatching
  have hheld := h.kept_of_back hcontrol
  rw [htop] at hheld
  have hasked : m.world.Balanced
      (framesAssets rest ++ (fiber.assets ++ exit.assets ++ m.beneath)) := by
    refine hheld.balanced.recount fun f _ => ?_
    simp only [framesAssets_cons, Frame.assets, weigh_append, weigh_nil]
    omega
  obtain ⟨scheduler, hs, -⟩ := hasks.alive hasked
  refine ⟨by rw [hs]; rfl, World.receives m.world s fiber exit ?_ hhome hexit.1⟩
  rintro x rfl
  obtain ⟨cell, hcell, -⟩ := hheld.balanced.clones_pos (x := x) (by
    simp only [Exit.assets, weigh_append, weigh_cons, cloneOf, if_true]
    omega)
  exact ⟨cell, hcell⟩

/-- The future of a call ends: the handle comes out of the call, and its driver waits for an
answer. -/
theorem Secures.handOver (h : m.Secures byHand shown) {d : DriverId} {driver : Driver} {turns : Nat}
    {call : HostCall} {x : HandleRef} {work : Work} {agenda : Agenda}
    {frames : List Frame} {w : World} (htop : m.top = .driving d (.poll (turns + 1)) :: frames)
    (hcontrol : m.control = .advance) (hshift : m.world.Shift [] w [])
    (hagenda : w.agenda = some agenda) (hcall : call ∈ agenda.calls)
    (hstate : call.state = .holding x work) (hd : w.driver? call.driver = some driver) :
    m.inFiber = false ∧
      m.world.Steady { w with agenda := some (agenda.setState call.key .handing) } ∧
      World.Sound shown { w with agenda := some (agenda.setState call.key .handing) }
        (.kept x :: (work.ending.assets ++ (framesAssets frames ++ m.beneath))) ∧
      World.Asks { w with agenda := some (agenda.setState call.key .handing) } driver.scheduler none
        (.completing call.driver call.key (w.handleId x) :: .driving d
          (.poll turns) :: frames) := by
  have haccepts := h.accepts
  have hheld := h.kept_of_top htop
  rw [htop] at haccepts
  rw [hcontrol] at hheld
  obtain ⟨hfiber, hplain⟩ := haccepts.of_driving
  have hready : w.Sound shown (framesAssets frames ++ m.beneath) := hheld.gain hshift
  have hfed : World.fedBy
      { w with agenda := some (agenda.setState call.key .handing) } call.driver =
      some driver.scheduler := by
    rw [World.fedBy]
    change (w.driver? call.driver).map _ = _
    rw [hd]
    rfl
  exact ⟨hfiber, (hshift _ hheld.balanced).drift.steady.trans
    (World.steady_handOver hagenda call.key), hready.handOver hagenda hcall hstate, rfl, hfed,
    World.handing_handOver hready.balanced hagenda hcall, hplain⟩

/-- A step keeps the machine in order. The handle with which a fiber comes back to whoever
transferred into it by hand is shown. -/
theorem Secures.moves {allowed : Action → Prop} (h : m.Secures byHand shown)
    (hhand : ∀ name delivery slot, allowed (.transfer name delivery slot) → byHand)
    (hshow : byHand → ∀ {name slot frames fiber x}, m.top = .transferring name slot :: frames →
      m.control = .back fiber (.suspended x) → shown x)
    (hmoves : Moves allowed m m') : m'.Secures byHand shown := by
  have hground := h.toGrounded
  have haccepts := h.accepts
  cases hmoves with
  | @acts action todo guards frames _ htop hcontrol hdoes =>
    have hheld := h.kept_of_top htop
    rw [htop, hcontrol] at haccepts
    rw [hcontrol] at hheld
    have hplain : PlainStack m.inFiber (.actions todo guards :: frames) :=
      plainStack_cons.2 ⟨rfl, haccepts.of_light trivial⟩
    refine (hground.goTo rfl (.refl _) _ _).sound_does ?_ hhand ?_ hdoes
    · rwa [goTo_inFiber, goTo_top]
    · rw [goTo_top, goTo_beneath, goTo_world]
      simpa [Frame.assets, Control.assets] using hheld
  | idle pushed w control htop hlight hpushed hcode hshift =>
    rw [htop] at haccepts
    exact hground.sound_idle (haccepts.of_light hlight) hpushed hcode (h.kept_of_top htop) hshift
  | @registered own plan frames w htop hcode hshift =>
    have hheld := h.kept_of_top htop
    rw [htop] at haccepts
    rw [hcode.assets_eq, List.append_nil] at hheld
    have hfiber : m.inFiber = true := by
      have hplain : PlainStack m.inFiber (.registering own plan :: frames) := by
        generalize m.control = control at haccepts hcode
        cases control <;> first | exact haccepts | exact hcode.elim
      exact (plainStack_cons.1 hplain).1
    have hsteady := (hshift _ hheld.balanced).drift.steady
    refine (hground.goTo hsteady.current hsteady.toKeeps _ _).sound_suspendAwait ?_ ?_ ?_
    · rw [goTo_inFiber, goTo_top]
      exact haccepts.of_light trivial
    · rwa [goTo_inFiber]
    · rw [goTo_top, goTo_beneath, goTo_world]
      exact hheld.gain hshift
  | @concludes x plan frames resumption htop hcontrol =>
    have hheld := h.kept_of_top htop
    rw [htop, hcontrol] at haccepts
    rw [hcontrol] at hheld
    have hplain : PlainStack m.inFiber frames := haccepts.1 ▸ haccepts.2
    obtain ⟨w, control, heq, hcode, hshift⟩ :=
      concludeAwait_eq (m.goTo frames m.world m.control) x plan resumption
    have hawaited := World.Sound.awaited hheld resumption
    rw [heq, goTo_goTo, goTo_top]
    exact hground.sound_code hplain hcode
      ((World.steady_mark _ _).trans (hawaited.drift hshift).steady) (hawaited.shift hshift)
  | @transferred name slot fiber exit frames htop hcontrol =>
    have hheld := h.kept_of_top htop
    rw [htop, hcontrol] at haccepts
    rw [hcontrol] at hheld
    obtain ⟨⟨hby, hhome, hplain⟩, hrest, -⟩ := haccepts
    have hloose : m.world.Sound shown
        ((fiber.assets ++ exit.loosened) ++ (framesAssets frames ++ m.beneath)) := by
      have hheld' : m.world.Sound shown
          (exit.assets ++ (fiber.assets ++ (framesAssets frames ++ m.beneath))) := by
        refine hheld.recount fun f _ => ?_
        simp only [Frame.assets, Control.assets, weigh_append, weigh_nil]
        omega
      have hrevealed : m.world.Sound shown
          (exit.loosened ++ (fiber.assets ++ (framesAssets frames ++ m.beneath))) := by
        cases exit with
        | suspended x => exact hheld'.reveal (hshow hby htop hcontrol)
        | completed | failed | panicked => exact hheld'
      refine hrevealed.recount fun f _ => ?_
      simp only [weigh_append]
      omega
    have hrests : fiber.Rests none := ⟨hhome, hrest, by simp⟩
    obtain ⟨w, heq, hshift⟩ :=
      transferred_eq (m.goTo frames m.world m.control) name slot exit hrests
    rw [heq, goTo_goTo, goTo_top]
    exact hground.sound_code hplain trivial (hloose.drift hshift).steady (hloose.shift hshift)
  | @receives s fiber exit frames htop hcontrol =>
    have hheld := h.kept_of_top htop
    rw [htop, hcontrol] at haccepts
    rw [hcontrol] at hheld
    obtain ⟨hentered, hrest, hexit⟩ := haccepts
    obtain ⟨ran, max, rest, rfl, hfiber, hhome, hasks⟩ := hentered.of_dispatching
    obtain ⟨hsome, hreceives⟩ := h.receives htop hcontrol
    obtain ⟨hsound, hsteady⟩ := World.Sound.receives hheld hhome hrest hexit hsome hreceives
    have hnone : Control.advance.assets = [] := rfl
    refine hground.sound_goTo hsteady ⟨hfiber, hasks.mono hsteady.toKeeps⟩ ?_
    rwa [hnone, List.append_nil]
  | @drains s ran max frames htop hcontrol =>
    have hheld := h.kept_of_top htop
    rw [htop, hcontrol] at haccepts
    rw [hcontrol] at hheld
    refine (hground.goTo rfl (.refl _) _ _).sound_drain ?_ ?_ ?_ ran
    · rw [goTo_inFiber]
      exact haccepts.1
    · rw [goTo_world, goTo_top]
      exact haccepts.2
    · rw [goTo_top, goTo_beneath, goTo_world]
      exact hheld
  | @asksAgain d driver frames htop hcontrol hd =>
    have hheld := h.kept_of_top htop
    rw [htop] at haccepts
    rw [hcontrol] at hheld
    obtain ⟨hfiber, hplain⟩ := haccepts.of_driving
    refine (hground.goTo rfl (.refl _) _ _).sound_run ?_ ?_ ?_
    · rw [goTo_world, goTo_top]
      exact fun _ => ⟨rfl, by rw [World.fedBy, hd]; rfl, hplain⟩
    · rw [goTo_inFiber, hfiber]
      exact fun hinside => by cases hinside
    · rw [goTo_top, goTo_beneath, goTo_world]
      exact hheld
  | @goesOn d phase phase' frames w htop hphase hshift hbusy =>
    have hheld := h.kept_of_top htop
    rw [htop] at haccepts
    obtain ⟨hfiber, hplain⟩ := haccepts.of_driving
    have hnext : ∀ fiber waiters, phase' ≠ .resuming fiber waiters := by
      cases hphase <;> simp
    refine hground.sound_goTo (hheld.drift hshift).steady ⟨hfiber, hnext, hplain⟩ ?_
    simpa [Control.assets] using hheld.shift hshift
  | @hears d frames htop hcontrol =>
    have hheld := h.kept_of_top htop
    rw [htop] at haccepts
    rw [hcontrol] at hheld
    obtain ⟨hfiber, hplain⟩ := haccepts.of_driving
    refine hground.sound_goTo (World.steady_heard _ d) ⟨hfiber, by simp, hplain⟩ ?_
    simpa [Frame.assets, Control.assets] using hheld.heard d
  | @settles d driver n frames htop hcontrol hd hnone hwaiting =>
    have hheld := h.kept_of_top htop
    rw [htop] at haccepts
    rw [hcontrol] at hheld
    obtain ⟨hfiber, hplain⟩ := haccepts.of_driving
    have hsettled : (m.world.updateDriver d fun driver => { driver with waiting := [] }).Sound shown
        (driver.waiting.map .kept ++ (framesAssets frames ++ m.beneath)) := by
      refine hheld.updateDriver hd fun f _ => ?_
      simp only [Frame.assets, Control.assets, Driver.assets, List.map_nil,
        weigh_append, weigh_cons, weigh_nil]
      omega
    refine hground.sound_goTo ((World.steady_updateDriver _ d
      (g := fun driver => { driver with waiting := [] }) fun _ =>
      rfl).trans (World.steady_tell _ _))
      ⟨hfiber, by simp, hplain⟩ ?_
    simpa [Frame.assets, Control.assets] using hsettled.tell (.settled driver.waiting.length)
  | @ends d driver n frames htop hcontrol hd =>
    have hheld := h.kept_of_top htop
    rw [htop] at haccepts
    rw [hcontrol] at hheld
    obtain ⟨hfiber, hplain⟩ := haccepts.of_driving
    obtain ⟨hclosed, hsteady⟩ := (hheld.tell .driverIdle).closeAgenda
    have hshown := World.shift_emit (m.world.tell .driverIdle).closeAgenda "host_run"
      (.text "ok") []
    refine hground.sound_code (hfiber ▸ hplain) trivial
      (((World.steady_tell _ _).trans hsteady).trans
      (hshown _ hclosed.balanced).drift.steady) (hclosed.gain hshown)
  | @resumes d driver x rest frames htop hcontrol hd =>
    have hheld := h.kept_of_top htop
    rw [htop] at haccepts
    rw [hcontrol] at hheld
    obtain ⟨hfiber, hplain⟩ := haccepts.of_driving
    have hfed : m.world.fedBy d = some driver.scheduler := by rw [World.fedBy, hd]; rfl
    obtain ⟨scheduler, hs, -⟩ := hheld.balanced.fedBy_alive hfed
    refine (hground.goTo rfl (.refl _) _ _).sound_deliver ?_ ?_ hs (.inl rfl) ?_
    · rw [goTo_inFiber, goTo_top]
      exact fun _ => ⟨hfiber, ⟨_, rfl, hfed, hplain⟩, by simp⟩
    · rw [goTo_world, goTo_top]
      exact fun _ => ⟨rfl, hfed, hplain⟩
    · rw [goTo_top, goTo_beneath, goTo_world]
      refine hheld.recount fun f _ => ?_
      simp only [framesAssets_cons, Frame.assets, Control.assets, List.map_cons,
        weigh_append, weigh_cons, weigh_nil, Resumption.assets, Resumption.debris, Resumption.unit,
          Payload.unit, Payload.debris,
        loosen_nil]
      omega
  | @completes d driver turns call x work outcome agenda frames w htop hcontrol hshift hagenda hcall
    hstate hending hd =>
    obtain ⟨hfiber, hsteady, hhanded, hasks⟩ :=
      h.handOver htop hcontrol hshift hagenda hcall hstate hd
    rw [hending] at hhanded
    obtain ⟨scheduler, hs, -⟩ := hhanded.balanced.fedBy_alive hasks.2.1
    refine (hground.goTo hsteady.current hsteady.toKeeps _ _).sound_deliver ?_ ?_ hs (.inl rfl) ?_
    · rw [goTo_inFiber, goTo_top]
      exact fun _ => ⟨hfiber, ⟨_, hasks⟩, by simp⟩
    · rw [goTo_world, goTo_top]
      exact fun _ => hasks
    · rw [goTo_top, goTo_beneath, goTo_world]
      exact hhanded
  | @breaks d turns call x work agenda frames w htop hcontrol hshift hagenda hcall
    hstate hending hd =>
    obtain ⟨driver, hd⟩ := Option.isSome_iff_exists.1 hd
    obtain ⟨hfiber, hsteady, hhanded, hasks⟩ :=
      h.handOver htop hcontrol hshift hagenda hcall hstate hd
    rw [hending] at hhanded
    have hdropped :=
      World.steady_release { w with agenda := some (agenda.setState call.key .handing) } [.handle x]
    refine hground.sound_goTo (hsteady.trans hdropped)
      ⟨hfiber, ⟨_, hasks.mono hdropped.toKeeps⟩, by simp⟩ ?_
    have hanswer : (Control.answer (.ok 0)).assets = [] := rfl
    rw [hanswer, List.append_nil]
    exact hhanded.release_clone (.inl rfl)
  | @completed d key fiber result frames htop hcontrol =>
    have hheld := h.kept_of_top htop
    rw [htop, hcontrol] at haccepts
    rw [hcontrol] at hheld
    obtain ⟨hfiber, ⟨s, hasks⟩, -⟩ := haccepts
    obtain ⟨other, turns, rest, rfl, hhanding, hplain⟩ := hasks.of_completing
    obtain ⟨w, heq, hshift⟩ := completed_eq (m.goTo (.driving other (.poll turns) :: rest) m.world
      m.control) d key fiber result
    have hheld' : m.world.Sound shown (framesAssets rest ++ m.beneath) := hheld
    have hsteady := ((hshift []) _ hheld'.balanced).drift.steady
    have hremoved := ((hheld'.gain (hshift [])).remove (hsteady.handing hhanding)).callOver d
    rw [heq, goTo_goTo, goTo_top]
    refine hground.sound_goTo
      ((hsteady.trans (World.steady_remove w key)).trans (World.steady_callOver _ d))
      ⟨hfiber, by simp, hplain⟩ ?_
    simpa [Frame.assets, Control.assets] using hremoved
  | @leaves running below exit hrunning htop hexit =>
    have hkept := h.kept
    have hcode : m.control.assets = [] ∧ ∀ x, exit ≠ .suspended x := by
      generalize m.control = control at hexit
      cases control <;> cases hexit <;> exact ⟨rfl, by simp⟩
    rw [assets, htop, hcode.1] at hkept
    exact hground.sound_leave hrunning htop hcode.2 hkept

/-- A step keeps the machine sound. -/
theorem Sound.moves {allowed : Action → Prop} (h : m.Sound byHand)
    (hhand : ∀ name delivery slot, allowed (.transfer name delivery slot) → byHand)
    (hmoves : Moves allowed m m') : m'.Sound byHand :=
  Secures.moves h hhand (fun hby _ _ _ _ _ _ _ => hby) hmoves

/-- A driver has the turn at the root only. -/
theorem Sound.running_of_driving (h : m.Sound byHand) {d : DriverId} {phase : DriverPhase}
    (htop : m.top = .driving d phase :: frames) : m.running = [] := by
  have haccepts := h.accepts
  rw [htop] at haccepts
  have houtside : m.inFiber = false := by
    generalize m.control = control at haccepts
    cases control with
    | advance => exact haccepts.1
    | answer => exact haccepts.1
    | raise | panicking => simp [World.Accepts, Frame.isPlain] at haccepts
    | resumed => exact haccepts.2.elim
    | back => exact haccepts.1.elim
  simpa [inFiber] using houtside

/-! ### Fibers that are unwound -/

theorem le_weigh_assets {running : Running} (member : running ∈ m.running) (f : Asset → Nat) :
    f (.loose (.fiber running.serial running.id running.home)) ≤ weigh f m.assets := by
  have hlevels := m.weigh_levels f
  have hone := le_weigh_of_mem (fun running => weigh f running.assets) member
  rw [← weigh_flatMap] at hone
  simp only [Running.assets, fiberAssets, weigh_cons] at hone
  simp only [assets, weigh_append]
  omega

/-- No fiber that has ended or was unwound is one that control is in. -/
theorem Sound.serial_ne (h : m.Sound byHand) {serial : Nat}
    (hburied : 0 < m.world.tally (Mark.terminates serial)) {running : Running}
    (member : running ∈ m.running) : running.serial ≠ serial := by
  rintro rfl
  have hbodies := h.kept.balanced.bodies running.serial
  have hone := le_weigh_assets member (Asset.serialOf running.serial)
  simp only [Asset.serialOf, Asset.begunOf, if_true] at hone
  split at hbodies <;> omega

theorem le_tally {w : World} {told : Mark} (member : .mark told ∈ w.history.toList)
    (f : Mark → Nat) : f told ≤ w.tally f :=
  le_weigh_of_mem (Happening.weight f) member

theorem Sound.allow {byHand' : Prop} (h : m.Sound byHand) (hby : byHand → byHand') :
    m.Sound byHand' where
  current := h.current
  nested := h.nested.allow hby
  accepts := h.accepts.allow hby
  kept := ⟨h.kept.balanced, h.kept.orderly, fun x hhidden => h.kept.hidden x fun hshown =>
    hhidden (hby hshown)⟩

theorem Sound.current_ne (h : m.Sound byHand) {serial : Nat} {id : FiberId}
    {home : Option SchedulerId}
    (hmark : .mark (.discarded serial id home) ∈ m.world.history.toList) :
    m.world.current ≠ some ⟨serial, id⟩ := by
  intro hcurrent
  rw [h.current, Option.map_eq_some_iff] at hcurrent
  obtain ⟨running, hhead, hsame⟩ := hcurrent
  have hburied := le_tally hmark (terminates serial)
  rw [terminates, if_pos rfl] at hburied
  exact h.serial_ne hburied (List.mem_of_head? hhead) (congrArg Current.serial hsame)

/-- To leave the code of suspended fibers that were unwound changes nothing, as none of them
is the current one. -/
theorem Sound.leaveUnwound_eq (h : m.Sound byHand) (length : Nat) : m.leaveUnwound length = m := by
  have hnone : (m.world.unwoundSince length).any (m.world.current = some ·) = false := by
    rw [List.any_eq_false]
    intro fiber member
    obtain ⟨happening, hnews, hfiber⟩ := List.mem_filterMap.1 member
    split at hfiber <;> cases hfiber
    simpa using h.current_ne (List.mem_of_mem_drop hnews)
  rw [leaveUnwound, hnone, cond_false]

/-- A step is what its move is: the fibers that the move unwinds are not the current one. -/
theorem Sound.step?_eq (h : m.Sound byHand) : m.step? = m.move? := by
  rw [step?]
  cases hmove : m.move? with
  | none => rfl
  | some next =>
    have hmoves : Moves (fun _ => True) m next :=
      moves_of_move hmove h.kept.orderly fun _ _ => trivial
    have hnext : next.Sound True := (h.allow fun _ => trivial).moves (fun _ _ _ _ => trivial) hmoves
    rw [Option.map_some, hnext.leaveUnwound_eq]

theorem Sound.step?_of_top (h : m.Sound byHand) {frame : Frame} (htop : m.top = frame :: frames) :
    m.step? = (m.goTo frames m.world m.control).react? frame :=
  h.step?_eq.trans (move?_of_top m htop)

/-- An action is performed where the rest of its list is next. -/
theorem Sound.step?_of_action (h : m.Sound byHand) {action : Action}
    (hnext : m.nextAction? = some action) (hguard : ∀ value, action ≠ .guard value) :
    ∃ frames, m.step? = some ((m.goTo frames m.world .advance).perform action) := by
  rw [nextAction?] at hnext
  split at hnext
  next first todo guards frames hcontrol htop =>
    cases hnext
    refine ⟨.actions todo guards :: frames, ?_⟩
    rw [h.step?_of_top htop, hcontrol, ← goTo_push]
    cases action <;> first | rfl | exact absurd rfl (hguard _)
  next => cases hnext

/-- A step of a sound machine is one of the things that a step can do. -/
theorem step_moves {allowed : Action → Prop} (hstep : m.step? = some m') (h : m.Sound byHand)
    (hallowed : ∀ action, m.nextAction? = some action → allowed action.core) : Moves allowed m m' :=
  moves_of_move (h.step?_eq.symm.trans hstep) h.kept.orderly hallowed

end Machine

end Fibers
