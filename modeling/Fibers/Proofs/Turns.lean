import Fibers.Proofs.Histories

/-!
What a step means to those who wait. Most steps leave handles and queues alone.
The others make a handle, suspend a fiber on one, deliver to one, or take a fiber
from a queue and enter it. This is a coarser view of the steps, with fewer kinds
of them.
-/

namespace Fibers

open Asset (cloneOf looseOf shareOf)

/-- Frames of those who wait for a resumption, or are about to. -/
def Frame.IsAwait : Frame → Prop
  | .registering .. | .awaiting .. | .suspending _ => True
  | _ => False

/-- Control that brings neither a fiber nor a resumption. -/
def Control.IsPlain : Control → Prop
  | .resumed _ | .back .. => False
  | _ => True

theorem Control.IsCode.isPlain {control : Control} (h : control.IsCode) : control.IsPlain := by
  cases control <;> trivial

theorem Frame.IsCode.not_isAwait {frame : Frame} (h : frame.IsCode) : ¬frame.IsAwait := by
  cases frame <;> simp_all [Frame.IsCode, Frame.IsAwait]

/-- The scheduler of the task that control comes out of. -/
def Control.home? : Control → Option SchedulerId
  | .back fiber _ => fiber.home
  | _ => none

/-- The scheduler of the task that control comes out of for good. -/
def Control.ended? : Control → Option SchedulerId
  | .back _ (.suspended _) => none
  | .back fiber _ => fiber.home
  | _ => none

theorem Control.IsPlain.home? {control : Control} (h : control.IsPlain) : control.home? = none := by
  cases control <;> first | rfl | exact h.elim

/-- Actions that go through schedulers, handles and drivers, and touch no fiber
and no slot directly. -/
def Action.IsPublic : Action → Prop
  | .suspend .. | .newHandle .. | .park .. | .wake .. | .newCoroutine .. | .transfer ..
  | .coroutineInfo _ | .takeStack _ | .dropCoroutine _ => False
  | .foreign _ action => action.IsPublic
  | _ => True

namespace Machine

/-- The schedulers of the tasks that control is inside of. -/
def within (m : Machine) : List SchedulerId := m.running.filterMap Running.home

/-- The schedulers of the tasks that control is inside of or comes out of. -/
def homes (m : Machine) : List SchedulerId := m.control.home?.toList ++ m.within

/-- A call gives its handle up. -/
def givenUp (key : Nat) (claim : Nat × DriverId × Option HandleRef) :
    Nat × DriverId × Option HandleRef :=
  if claim.1 = key then (claim.1, claim.2.1, none) else claim

theorem claims_setState (agenda : Agenda) (key : Nat) :
    (agenda.setState key .handing).calls.map HostCall.claim = (agenda.calls.map HostCall.claim).map
    (givenUp key) := by
  rw [Agenda.setState, List.map_map, List.map_map]
  refine List.map_congr_left fun call _ => ?_
  rw [Function.comp_apply, Function.comp_apply, givenUp]
  change _ = if call.key = key then _ else _
  split <;> rfl

/-- Who delivers to a handle: code that was shown it, a driver whose call it is the
turn of, or a call that is over. -/
inductive DeliversTo (m : Machine) (frames : List Frame) (w : World) (s : SchedulerId)
    (x : HandleRef) (resumption : Resumption) : Prop
  | code (hshown : m.world.Shows m.assets x)
  | driver {d : DriverId} {waiters : List HandleRef} {below : List Frame}
      (htop : m.top = .driving d (.settle (x :: waiters)) :: below)
      (hfed : m.world.fedBy d = some s)
      (hframes : frames = .driving d (.resuming (m.world.handleId x) waiters) :: below)
      (hworld : w = m.world) (hunit : resumption = .unit)
  | call {key : Nat} {d : DriverId} {claims : List (Nat × DriverId × Option HandleRef)}
      (hclaims : m.world.claims = some claims) (hclaim : (key, d, some x) ∈ claims)
      (hgiven : w.claims = some (claims.map (givenUp key))) (hfed : m.world.fedBy d = some s)

/-- What a step means to handles and queues. -/
inductive Turns (allowed : Action → Prop) (m : Machine) : Machine → Prop
  | noArrivals {frames : List Frame} {w : World} {control : Control}
      (hframes : ∀ frame ∈ frames, frame ∈ m.top ∨ ¬frame.IsAwait) (hcontrol : control.IsPlain)
      (h : m.world.NoProgress w) : Turns allowed m (m.goTo frames w control)
  | enqueues {position : Nat} {s : SchedulerId} {scheduler : Scheduler} {body : List Action}
      {frames : List Frame}
      (hallowed : allowed (.enqueue position body) ∨
        ∃ task, m.taskBody task = body ∧ allowed (.enqueueNamed position task))
      (hposition : m.world.schedulerAt position = some s)
      (hs : m.world.scheduler? s = some scheduler) (shown : Datum)
      (hframes : ∀ frame ∈ frames, frame ∈ m.top ∨ ¬frame.IsAwait) :
      Turns allowed m (m.goTo frames ((m.world.enqueue s body).2.emit "enqueue" shown) .advance)
  | registers {x : HandleRef} {plan : AwaitPlan} {w : World} {frames : List Frame}
      (register : List Action) (hplan : plan.kind.isHosted = false) (h : m.world.Opens x plan w)
      (hframes : ∀ frame ∈ frames, frame ∈ m.top ∨ ¬frame.IsAwait) :
      Turns allowed m (m.goTo (.actions register [] :: .registering x plan :: frames) w .advance)
  | strands {x : HandleRef} {plan : AwaitPlan} {w : World} {frames : List Frame} (panic : Panic)
      (hcaller : plan.kind.caller?.isSome) (hnone : m.world.claims = none)
      (h : m.world.Opens x plan w) (hframes : ∀ frame ∈ frames, frame ∈ m.top ∨ ¬frame.IsAwait) :
      Turns allowed m (m.goTo frames w (.panicking panic))
  | issues {d : DriverId} {x : HandleRef} {plan : AwaitPlan} {w : World} {frames : List Frame}
      (huses : m.Uses allowed d plan.kind) (hdriver : plan.kind.driver? = some d)
      (hplan : plan.kind.isHosted = true)
      (hlisted : plan.kind = .all d → w.waiters d = m.world.waiters d ++ [x])
      (hcurrent : m.world.current.isSome) (h : m.world.Opens x plan w)
      (hframes : ∀ frame ∈ frames, frame ∈ m.top ∨ ¬frame.IsAwait) :
      Turns allowed m ((m.goTo frames w .advance).suspendAwait x plan)
  | registered {x : HandleRef} {plan : AwaitPlan} {frames : List Frame} {w : World}
      (htop : m.top = .registering x plan :: frames) (hcontrol : m.control.IsCode)
      (h : m.world.NoProgress w) : Turns allowed m ((m.goTo frames w m.control).suspendAwait x plan)
  | delivers {frames : List Frame} {w : World} {s : SchedulerId} {x : HandleRef} {cell : HandleCell}
      {resumption : Resumption} {m' : Machine}
      (hframes : ∀ frame ∈ frames, frame ∈ m.top ∨ ¬frame.IsAwait) (h : m.world.NoProgress w)
      (hcell : w.handles.get? x = some cell) (hs : (w.scheduler? s).isSome)
      (hfrom : DeliversTo m frames w s x resumption)
      (hdelivers : Delivers (m.goTo frames w .advance) s x cell resumption m') : Turns allowed m m'
  | concludes {x : HandleRef} {plan : AwaitPlan} {frames : List Frame} {resumption : Resumption}
      {w : World} {control : Control} (htop : m.top = .awaiting x plan :: frames)
      (hresumed : m.control = .resumed resumption) (hcontrol : control.IsCode)
      (h : (m.world.mark (.awaited x resumption)).NoProgress w) :
      Turns allowed m (m.goTo frames w control)
  | receives {s : SchedulerId} {fiber : Fiber} {exit : Exit} {frames : List Frame} {w : World}
      (htop : m.top = .dispatching s :: frames) (hcontrol : m.control = .back fiber exit)
      (hs : (m.world.scheduler? s).isSome) (h : m.world.Receives s fiber exit w) :
      Turns allowed m (m.goTo frames w .advance)
  | drains {s : SchedulerId} {ran : Nat} {max : Option Nat} {frames : List Frame} {m' : Machine}
      (htop : m.top = .draining s ran max :: frames) (hcontrol : m.control = .advance)
      (h : Drains (m.goTo frames m.world .advance) s ran max m') : Turns allowed m m'
  | leaves {running : Running} {below : List Running} {exit : Exit}
      (hrunning : m.running = running :: below) (htop : m.top = [])
      (hcontrol : exit? m.control = some exit) : Turns allowed m (m.leave running below exit)
  | hand {action : Action} {m' : Machine} (hallowed : allowed action) (hhand : ¬action.IsPublic)
      (h : ∀ s, World.Spares s m.world m'.world) (hhomes : m'.homes = m.within)
      (hended : m'.control.ended? = none)
      (hkept : ∀ x, ¬m.world.Shows m.assets x → World.Avoids x m.world m'.world)
      (hback : ∀ fiber x, m'.control = .back fiber (.suspended x) → m.world.Shows m.assets x) :
      Turns allowed m m'

variable {byHand : Prop} {allowed : Action → Prop} {m m' : Machine} {frames : List Frame}
  {s : SchedulerId} {w : World}

/-- A run is refused, or its frame comes on top. -/
theorem run_eq (m : Machine) (s : SchedulerId) (max : Option Nat) :
    ∃ frames control, m.run s max = m.goTo frames m.world control ∧ control.IsPlain ∧
      ∀ frame ∈ frames, frame ∈ m.top ∨ ¬frame.IsAwait := by
  rw [run]
  split
  · exact ⟨m.top, _, withControl_eq .., trivial, fun _ => .inl⟩
  · refine ⟨.draining s 0 max :: m.top, .advance, by rw [push_eq, goTo_advance], trivial, ?_⟩
    rintro frame (_ | ⟨_, member⟩)
    · exact .inr id
    · exact .inl member

@[simp]
theorem within_goTo (m : Machine) (frames : List Frame) (w : World) (control : Control) :
    (m.goTo frames w control).within = m.within := by
  unfold goTo withTop within
  cases m.running <;> rfl

theorem homes_goTo (m : Machine) (frames : List Frame) (w : World) (control : Control) :
    (m.goTo frames w control).homes = control.home?.toList ++ m.within := by
  rw [homes, goTo_control, within_goTo]

theorem suspend_homes (m : Machine) (x : HandleRef) (h : m.control.home? = none) :
    (m.suspend x).homes = m.within := by
  obtain ⟨world, running, root, control⟩ := m
  cases running with
  | nil =>
    change control.home?.toList ++ [] = []
    rw [h]
    rfl
  | cons running below =>
    change running.home.toList ++ below.filterMap Running.home =
      (running :: below).filterMap Running.home
    rw [List.filterMap_cons]
    cases running.home <;> rfl

theorem suspend_ended (m : Machine) (x : HandleRef) (h : m.control.ended? = none) :
    (m.suspend x).control.ended? = none := by
  obtain ⟨world, running, root, control⟩ := m
  cases running with
  | nil => exact h
  | cons running below => rfl

theorem enter_homes (m : Machine) (fiber : Fiber) (resumption : Resumption) :
    (m.enter fiber resumption).homes = fiber.home.toList ++ m.within := by
  have hoccupied : ∀ (control : Control) (running : Running), control.home? = none →
      running.home = fiber.home →
      control.home?.toList ++ (running :: m.running).filterMap Running.home =
        fiber.home.toList ++ m.within := by
    intro control running hcontrol hhome
    rw [hcontrol, List.filterMap_cons, hhome, within]
    cases fiber.home <;> rfl
  rw [enter.eq_def]
  split
  · split <;> exact hoccupied _ _ rfl rfl
  · exact hoccupied _ _ rfl rfl
  · rfl

theorem enter_ended (m : Machine) {fiber : Fiber} (resumption : Resumption)
    (h : fiber.home = none ∨ fiber.state ≠ .finished) :
    (m.enter fiber resumption).control.ended? = none := by
  rw [enter.eq_def]
  split
  · split <;> rfl
  · rfl
  next hfinished => exact h.resolve_right fun hstate => hstate hfinished

theorem suspend_spares (m : Machine) (x : HandleRef) :
    World.Spares s m.world (m.suspend x).world := by
  rw [suspend]
  split <;> exact .of_same rfl rfl

theorem suspend_avoids (m : Machine) (x y : HandleRef) :
    World.Avoids y m.world (m.suspend x).world := by
  rw [suspend]
  split <;> exact .of_same rfl rfl

theorem suspend_back {m : Machine} {x y : HandleRef} {fiber : Fiber} (h : m.control.IsCode)
    (hback : (m.suspend x).control = .back fiber (.suspended y)) : x = y := by
  rw [suspend] at hback
  split at hback
  · rw [hback] at h
    exact h.elim
  · cases hback
    rfl

theorem suspendAwait_spares (m : Machine) (x : HandleRef) (plan : AwaitPlan) :
    World.Spares s m.world (m.suspendAwait x plan).world := by
  rw [suspendAwait, push_eq]
  exact suspend_spares (goTo ..) _

theorem enter_spares (m : Machine) (fiber : Fiber) (resumption : Resumption) :
    World.Spares s m.world (m.enter fiber resumption).world := by
  rw [enter.eq_def]
  split
  · split <;> exact .of_same rfl rfl
  · exact .of_same rfl rfl
  · exact World.spares_release ..

theorem enter_avoids (m : Machine) (fiber : Fiber) (resumption : Resumption) (x : HandleRef) :
    World.Avoids x m.world (m.enter fiber resumption).world := by
  rw [enter.eq_def]
  split
  · split <;> exact .of_same rfl rfl
  · exact .of_same rfl rfl
  · exact (World.noArrivals_release ..).avoids x

/-- A fiber that is entered does not come back suspended at once. -/
theorem enter_back {m : Machine} {fiber other : Fiber} {resumption : Resumption} {x : HandleRef} :
    (m.enter fiber resumption).control ≠ .back other (.suspended x) := by
  rw [enter.eq_def]
  split
  · split <;> exact nofun
  · exact nofun
  · exact nofun

theorem handOut_avoids (m : Machine) (action name : String) (fiber : Fiber)
    (resumption : Resumption) (x : HandleRef) :
    World.Avoids x m.world (m.handOut action name fiber resumption).world :=
  ((World.Avoids.emit ..).trans ((World.noProgress_bind ..).avoids x)).trans
  ((World.noArrivals_release ..).avoids x)

theorem handOut_spares (m : Machine) (action name : String) (fiber : Fiber)
    (resumption : Resumption) :
    World.Spares s m.world (m.handOut action name fiber resumption).world :=
  ((World.Spares.emit ..).trans ((World.noProgress_bind ..).spares s)).trans
  (World.spares_release ..)

theorem parkedByHand_spares (m : Machine) (name : String)
    (result : Option (Fiber × Resumption) × World) :
    World.Spares s result.2 (m.parkedByHand name result).world := by
  obtain ⟨_ | ⟨fiber, resumption⟩, w⟩ := result
  · exact .emit ..
  · exact handOut_spares (m.withWorld w) ..

theorem wokenByHand_spares (m : Machine) (name : String)
    (result : Except SchedulerFault (Option (Fiber × Resumption)) × World) :
    World.Spares s result.2 (m.wokenByHand name result).world := by
  obtain ⟨_ | _ | ⟨fiber, resumption⟩, w⟩ := result
  · exact .emit ..
  · exact .emit ..
  · exact handOut_spares (m.withWorld w) ..

theorem parkedByHand_avoids (m : Machine) (name : String)
    (result : Option (Fiber × Resumption) × World) (x : HandleRef) :
    World.Avoids x result.2 (m.parkedByHand name result).world := by
  obtain ⟨_ | ⟨fiber, resumption⟩, w⟩ := result
  · exact .emit ..
  · exact handOut_avoids (m.withWorld w) ..

theorem wokenByHand_avoids (m : Machine) (name : String)
    (result : Except SchedulerFault (Option (Fiber × Resumption)) × World) (x : HandleRef) :
    World.Avoids x result.2 (m.wokenByHand name result).world := by
  obtain ⟨_ | _ | ⟨fiber, resumption⟩, w⟩ := result
  · exact .emit ..
  · exact .emit ..
  · exact handOut_avoids (m.withWorld w) ..

theorem parkedByHand_homes (m : Machine) (name : String)
    (result : Option (Fiber × Resumption) × World) :
    (m.parkedByHand name result).homes = m.homes ∧ (m.parkedByHand name result).control =
    m.control := by
  obtain ⟨_ | ⟨fiber, resumption⟩, w⟩ := result <;> exact ⟨rfl, rfl⟩

theorem wokenByHand_homes (m : Machine) (name : String)
    (result : Except SchedulerFault (Option (Fiber × Resumption)) × World) :
    (m.wokenByHand name result).homes = m.homes ∧ (m.wokenByHand name result).control =
    m.control := by
  obtain ⟨_ | _ | ⟨fiber, resumption⟩, w⟩ := result <;> exact ⟨rfl, rfl⟩

/-- What an action means to handles and queues. -/
theorem Does.turns {action : Action} {todo : List Action} {guards : List Datum}
    {shown : HandleRef → Prop}
    (hkept : m.world.Sound shown (framesAssets (.actions todo guards :: frames) ++ m.beneath))
    (htop : m.top = .actions (action :: todo) guards :: frames)
    (hdoes : Does allowed (m.goTo (.actions todo guards :: frames) m.world .advance) m') :
    Turns allowed m m' := by
  have hframes : ∀ frame ∈ .actions todo guards :: frames, frame ∈ m.top ∨ ¬frame.IsAwait := by
    rintro frame (_ | ⟨_, member⟩)
    · exact .inr id
    · rw [htop]
      exact .inl (List.mem_cons_of_mem _ member)
  have hpush : ∀ {frame : Frame}, ¬frame.IsAwait →
      ∀ other ∈ frame :: .actions todo guards :: frames, other ∈ m.top ∨ ¬other.IsAwait := by
    rintro frame hframe other (_ | ⟨_, member⟩)
    · exact .inr hframe
    · exact hframes other member
  have hnoProgress : ∀ {w out}, m.world.Shift [] w out → m.world.NoProgress w := fun hshift =>
    (hshift _ hkept.balanced).drift.noProgress
  have hloose : ∀ {w out x}, m.world.Shift [] w out → .loose (.handle x) ∈ out →
      m.world.Shows m.assets x := by
    intro w out x hshift member
    have hshown := (hshift _ hkept.balanced).shows x (by
      have := le_weigh_of_mem (looseOf x) member
      simp only [looseOf, if_true] at this
      simp only [World.Shows, weigh_append]
      omega)
    rw [World.Shows, assets, htop]
    change 0 < m.world.worth (looseOf x) + weigh (looseOf x) (_ ++ m.beneath) at hshown
    simp only [framesAssets_cons, Frame.assets, weigh_append] at hshown ⊢
    omega
  cases hdoes with
  | idle pushed w control hpushed hcode hshift =>
    rw [goTo_goTo, goTo_top]
    refine .noArrivals (fun frame member => ?_) hcode.isPlain (hnoProgress hshift)
    rcases List.mem_append.1 member with member | member
    · exact .inr (hpushed frame member).not_isAwait
    · exact hframes frame member
  | @enqueues position s body hallowed hs shown =>
    obtain ⟨scheduler, hscheduler, -⟩ := hkept.balanced.schedulerAt_alive hs
    rw [goTo_goTo, goTo_top]
    exact Turns.enqueues (m := m) hallowed hs hscheduler shown hframes
  | @asks w s max reply hshift =>
    obtain ⟨frames', control, heq, hcontrol, hpushed⟩ := run_eq
      ((m.goTo (.actions todo guards :: frames) m.world .advance).goTo
        (.answering s reply :: .actions todo guards :: frames) w .advance) s max
    rw [goTo_top]
    rw [heq]
    simp only [goTo_goTo, goTo_top, goTo_world] at hpushed ⊢
    refine .noArrivals (fun frame member => ?_) hcontrol (hnoProgress hshift)
    rcases hpushed frame member with member | hnot
    · exact hpush id frame member
    · exact .inr hnot
  | @delivers w s x resumption reply hshift =>
    have hheld := hkept.gain hshift
    obtain ⟨scheduler, hs, -⟩ := hheld.balanced.owners_pos (s := s)
      (by simp only [List.cons_append, weigh_cons, shareOf, if_true]; omega)
    obtain ⟨cell, hcell, -⟩ := hheld.balanced.clones_pos (x := x)
      (by simp only [List.cons_append, weigh_cons, cloneOf, if_true]; omega)
    rw [goTo_goTo, goTo_top]
    have hawait : ¬Frame.IsAwait (.answering s reply) := id
    refine .delivers (hpush hawait) (hnoProgress hshift) hcell (by rw [hs]; rfl)
      (.code (hloose hshift (by simp))) (Machine.delivers _ s hcell resumption)
  | @awaits plan current w clones register hplan hcurrent hshift =>
    have hready := hkept.openShown current clones hplan
    rw [goTo_goTo, goTo_top]
    exact .registers register hplan
      (.intro current (clones + 1) (.refl _) rfl (hready.noProgress hshift)) hframes
  | @issues d w work plan current agenda huses hplan hd hshift hcurrent hagenda =>
    have hdriver : plan.kind.driver? = some d := by
      cases hkind : plan.kind <;> simp_all [AwaitKind.caller?, AwaitKind.driver?]
    have hbefore := hnoProgress hshift
    have hhosted : plan.kind.isHosted = true := by
      cases hkind : plan.kind <;> simp_all [AwaitKind.caller?, AwaitKind.isHosted]
    rw [goTo_goTo, goTo_top]
    refine .issues huses hdriver hhosted (fun hall => by rw [hall] at hplan; cases hplan) ?_
      (.intro current 2 hbefore rfl (.of_same rfl rfl rfl rfl)) hframes
    rw [World.currentId, Option.map_eq_some_iff] at hcurrent
    obtain ⟨running, hrunning, -⟩ := hcurrent
    rw [← hbefore.current, hrunning]
    rfl
  | @strands d w w' work plan current panic hplan hshift hcurrent hagenda hafter =>
    have hopened : (openAwait w current plan 2).2.Sound shown
        ((.post w.handles.next :: .kept w.handles.next :: .kept w.handles.next ::
          work.ending.assets) ++ (framesAssets (.actions todo guards :: frames) ++ m.beneath)) := by
      refine ((hkept.gain hshift).openHosted current plan).recount fun f _ => ?_
      simp only [weigh_cons, weigh_append, List.cons_append]
      omega
    rw [goTo_goTo, goTo_top]
    have hnone : m.world.claims = none := by
      have hclaims := (hshift _ hkept.balanced).drift.claims
      rw [World.claims, hagenda] at hclaims
      exact hclaims.symm
    exact .strands panic (by rw [hplan]; rfl) hnone
      (.intro current 2 (hnoProgress hshift) rfl (hopened.noProgress hafter)) hframes
  | @waits d plan current huses hplan hd hcurrent =>
    rw [goTo_goTo, goTo_top]
    have hlisted : (m.world.listed current d plan).waiters d =
        m.world.waiters d ++ [m.world.handles.next] :=
      (World.waiters_listed hd current plan d).trans (if_pos rfl)
    refine .issues huses (by rw [hplan]; rfl) (by rw [hplan]; rfl) (fun _ => hlisted) ?_
      (.intro current 2 (.refl _) rfl (.of_same rfl rfl rfl rfl)) hframes
    rw [goTo_world, World.currentId, Option.map_eq_some_iff] at hcurrent
    obtain ⟨running, hrunning, -⟩ := hcurrent
    rw [hrunning]
    rfl
  | drives d hd hcurrent hagenda =>
    rw [goTo_goTo, goTo_top]
    exact .noArrivals (hpush id) trivial (.of_same rfl rfl rfl rfl)
  | @drivers position s hs =>
    have howned := hnoProgress (m.world.shift_own hs)
    rw [goTo_goTo, goTo_top]
    exact .noArrivals hframes trivial (howned.trans (.of_same rfl rfl rfl rfl))
  | suspends hallowed hshift hcurrent =>
    refine .hand hallowed id
      (fun s => ((hnoProgress hshift).spares s).trans (suspend_spares (goTo ..) _)) ?_
      (suspend_ended _ _ rfl)
      (fun y _ => ((hnoProgress hshift).avoids y).trans (suspend_avoids (goTo ..) _ y))
      fun fiber y hback => suspend_back (by rw [goTo_control]; trivial) hback ▸ hloose hshift
        (List.mem_singleton.2 rfl)
    rw [suspend_homes _ _ rfl, within_goTo, within_goTo]
  | @makes slot number w hallowed hshift =>
    have hmade : ∀ s, World.Spares s m.world (m.world.makeHandle number 1).2 :=
      fun _ => .of_same rfl rfl
    refine .hand hallowed id
      (fun s => (hmade s).trans (((hkept.makeShown number).noProgress hshift).spares s)) ?_ rfl
      (fun y _ => (World.Avoids.makeHandle ..).trans
        (((hkept.makeShown number).noProgress hshift).avoids y))
      fun _ _ hback => by cases hback
    rw [homes_goTo, within_goTo]
    rfl
  | @parks w x fiber slot keep name owner hallowed hrests hshift =>
    obtain ⟨cell, hcell, -⟩ := (hkept.gain hshift).balanced.clones_pos (x := x)
      (by simp only [List.cons_append, weigh_cons, cloneOf, if_true]; omega)
    have hparks := World.parks hcell fiber (.caller owner)
    have hshown := hloose hshift (List.mem_cons_self ..)
    refine .hand hallowed id
      (fun s => (((hnoProgress hshift).spares s).trans (hparks.spares s)).trans
      (parkedByHand_spares ..)) ?_ ?_ (fun y hy => (((hnoProgress hshift).avoids y).trans
        (hparks.avoids fun heq => hy (heq ▸ hshown))).trans (parkedByHand_avoids ..))
        fun fiber y hback => ?_
    · rw [(parkedByHand_homes ..).1, homes_goTo, within_goTo]
      rfl
    · rw [(parkedByHand_homes ..).2]
      rfl
    · rw [(parkedByHand_homes ..).2] at hback
      cases hback
  | @wakes w x resumption slot keep name owner delivery hallowed hshift =>
    obtain ⟨cell, hcell, -⟩ := (hkept.gain hshift).balanced.clones_pos (x := x)
      (by simp only [List.cons_append, weigh_cons, cloneOf, if_true]; omega)
    have hwakes := World.wakes hcell (.caller owner) resumption
    have hshown := hloose hshift (List.mem_cons_self ..)
    refine .hand hallowed id
      (fun s => (((hnoProgress hshift).spares s).trans (hwakes.spares s)).trans
      (wokenByHand_spares ..)) ?_ ?_ (fun y hy => (((hnoProgress hshift).avoids y).trans
        (hwakes.avoids fun heq => hy (heq ▸ hshown))).trans (wokenByHand_avoids ..))
        fun fiber y hback => ?_
    · rw [(wokenByHand_homes ..).1, homes_goTo, within_goTo]
      rfl
    · rw [(wokenByHand_homes ..).2]
      rfl
    · rw [(wokenByHand_homes ..).2] at hback
      cases hback
  | transfers hallowed hrests hshift =>
    refine .hand hallowed id
      (fun s => ((hnoProgress hshift).spares s).trans (enter_spares (goTo ..) _ _)) ?_
      (enter_ended _ _ (.inl hrests.home_eq))
      (fun y _ => ((hnoProgress hshift).avoids y).trans
        (enter_avoids (goTo ..) _ _ y)) fun _ _ hback =>
        absurd hback enter_back
    rw [enter_homes, hrests.home_eq, within_goTo, within_goTo]
    rfl

/-- What a fiber that was transferred into by hand comes back with is shown. -/
theorem transferred_noProgress (m : Machine) (name : String) (slot : Option String) (fiber : Fiber)
    (exit : Exit) :
    ∃ w, m.transferred name slot fiber exit = m.goTo m.top w .advance ∧ m.world.NoProgress w := by
  have hshow : ∀ payload,
      m.world.NoProgress ((m.world.bind name fiber).emit "co_transfer" payload) :=
    fun payload => (World.noProgress_bind ..).trans (.emit ..)
  rw [transferred.eq_def]
  cases exit with
  | suspended x =>
    simp only
    rw [withWorld_eq m, goTo_emit, goTo_withWorld, goTo_advance]
    exact ⟨_, rfl, (hshow _).trans (World.noProgress_storeOrRelease ..)⟩
  | completed | failed | panicked =>
    simp only
    rw [withWorld_eq m, goTo_emit, goTo_advance]
    exact ⟨_, rfl, hshow _⟩

/-- What a step means to handles and queues. -/
theorem Sound.turns (h : m.Sound byHand) (hmoves : Moves allowed m m') : Turns allowed m m' := by
  have haccepts := h.accepts
  have htail : ∀ {frame : Frame} {frames : List Frame}, m.top = frame :: frames →
      ∀ other ∈ frames, other ∈ m.top ∨ ¬other.IsAwait := by
    intro frame frames htop other member
    rw [htop]
    exact .inl (List.mem_cons_of_mem _ member)
  have hpush : ∀ {frame next : Frame} {frames : List Frame}, m.top = frame :: frames →
      ¬next.IsAwait → ∀ other ∈ next :: frames, other ∈ m.top ∨ ¬other.IsAwait := by
    rintro frame next frames htop hnext other (_ | ⟨_, member⟩)
    · exact .inr hnext
    · exact htail htop other member
  cases hmoves with
  | @acts action todo guards frames _ htop hcontrol hdoes =>
    have hheld := h.kept_of_top htop
    rw [hcontrol] at hheld
    have hstands : m.world.Sound (fun _ => byHand)
        (framesAssets (.actions todo guards :: frames) ++ m.beneath) := by
      simpa [Frame.assets, Control.assets] using hheld
    exact hdoes.turns hstands htop
  | idle pushed w control htop hlight hpushed hcode hshift =>
    have hheld := h.kept_of_top htop
    refine .noArrivals (fun frame member => ?_) hcode.isPlain (hheld.noProgress hshift)
    rcases List.mem_append.1 member with member | member
    · exact .inr (hpushed frame member).not_isAwait
    · exact htail htop frame member
  | registered htop hcode hshift =>
    exact .registered htop hcode (hshift _ h.kept.balanced).drift.noProgress
  | @concludes x plan frames resumption htop hcontrol =>
    have hheld := h.kept_of_top htop
    rw [hcontrol] at hheld
    obtain ⟨w, control, heq, hcode, hshift⟩ :=
      concludeAwait_eq (m.goTo frames m.world m.control) x plan resumption
    have hawaited := World.Sound.awaited hheld resumption
    rw [heq, goTo_goTo, goTo_top]
    exact .concludes htop hcontrol hcode (hawaited.noProgress hshift)
  | @transferred name slot fiber exit frames htop hcontrol =>
    obtain ⟨w, heq, hnoProgress⟩ :=
      transferred_noProgress (m.goTo frames m.world m.control) name slot fiber exit
    rw [heq, goTo_goTo, goTo_top]
    exact .noArrivals (htail htop) trivial hnoProgress
  | @receives s fiber exit frames htop hcontrol =>
    obtain ⟨hsome, hreceives⟩ := h.receives htop hcontrol
    exact .receives htop hcontrol hsome hreceives
  | drains htop hcontrol =>
    exact .drains htop hcontrol (Machine.drains ..)
  | @asksAgain d driver frames htop hcontrol hd =>
    obtain ⟨frames', control, heq, hplain, hpushed⟩ :=
      run_eq (m.goTo (.driving d .drain :: frames) m.world .advance) driver.scheduler none
    rw [heq, goTo_goTo]
    refine .noArrivals (fun frame member => ?_) hplain (.refl _)
    rcases hpushed frame member with member | hnot
    · rw [goTo_top] at member
      exact hpush htop id frame member
    · exact .inr hnot
  | goesOn htop hphase hshift =>
    have hheld := h.kept_of_top htop
    exact .noArrivals (hpush htop id) trivial (hheld.noProgress hshift)
  | hears htop hcontrol => exact .noArrivals (hpush htop id) trivial (.of_same rfl rfl rfl rfl)
  | settles htop hcontrol hd hnone hwaiting =>
    refine .noArrivals (hpush htop id) trivial
      (World.NoProgress.trans (b := m.world.updateDriver _ _) ?_ (.tell _ ?_))
    · exact .of_same rfl rfl rfl rfl
    · simp [Event.settled, Event.usedHandle, Event.about]
  | ends htop hcontrol hd =>
    exact .noArrivals (htail htop) trivial
      (((World.NoProgress.tell _ (Event.isQuiet_driverIdle).1).trans
      (World.noProgress_closeAgenda _)).trans (.emit ..))
  | @resumes d driver x rest frames htop hcontrol hd =>
    have hheld := h.kept_of_top htop
    have hfed : m.world.fedBy d = some driver.scheduler := by rw [World.fedBy, hd]; rfl
    obtain ⟨scheduler, hs, -⟩ := hheld.balanced.fedBy_alive hfed
    obtain ⟨cell, hcell, -⟩ := hheld.balanced.clones_pos (x := x) (by
      simp only [Frame.assets, List.map_cons, weigh_append, weigh_cons, cloneOf, if_true]
      omega)
    have hdelivers := (m.goTo (.driving d (.resuming (m.world.handleId x) rest) :: frames) m.world
      .advance).delivers driver.scheduler hcell .unit
    exact .delivers (hpush htop id) (.refl _) hcell (by rw [hs]; rfl)
      (.driver htop hfed rfl rfl rfl) hdelivers
  | @completes d driver turns call x work outcome agenda frames w htop hcontrol hshift hagenda hcall
    hstate hending hd =>
    have hheld := h.kept_of_top htop
    have hhanded := World.Sound.handOver (hheld.gain hshift) hagenda hcall hstate
    have hfed : w.fedBy call.driver = some driver.scheduler := by rw [World.fedBy, hd]; rfl
    obtain ⟨scheduler, hs, -⟩ := (hheld.gain hshift).balanced.fedBy_alive hfed
    obtain ⟨cell, hcell, -⟩ := hhanded.balanced.clones_pos (x := x) (by
      simp only [weigh_append, weigh_cons, cloneOf, if_true]
      omega)
    have hnoProgress : m.world.NoProgress
        { w with agenda := some (agenda.setState call.key .handing) } :=
      (hshift _ h.kept.balanced).drift.noProgress.trans (.of_same rfl rfl rfl rfl)
    have hdelivers := (m.goTo (.completing call.driver call.key (w.handleId x) ::
      .driving d (.poll turns) ::
        frames) { w with agenda := some (agenda.setState call.key .handing) }
        .advance).delivers driver.scheduler hcell outcome
    have hfeeds : (World.scheduler? { w with agenda := some (agenda.setState call.key .handing) }
        driver.scheduler).isSome := by
      change (w.scheduler? _).isSome
      rw [hs]
      rfl
    have hclaims : m.world.claims = some (agenda.calls.map HostCall.claim) := by
      rw [← (hshift _ h.kept.balanced).drift.claims, World.claims, hagenda, Option.map_some]
    have hclaim : (call.key, call.driver, some x) ∈ agenda.calls.map HostCall.claim :=
      List.mem_map.2 ⟨call, hcall, by rw [HostCall.claim, hstate]⟩
    have hgiven : World.claims { w with agenda := some (agenda.setState call.key .handing) } =
        some ((agenda.calls.map HostCall.claim).map (givenUp call.key)) :=
      congrArg some (claims_setState agenda call.key)
    have hbefore : m.world.fedBy call.driver = some driver.scheduler :=
      (hheld.drift_gain hshift).fedBy _ ▸ hfed
    refine .delivers ?_ hnoProgress hcell hfeeds (.call hclaims hclaim hgiven hbefore) hdelivers
    rintro frame (_ | ⟨_, member⟩)
    · exact .inr id
    · exact hpush htop id frame member
  | @breaks d turns call x work agenda frames w htop hcontrol hshift hagenda =>
    have hnoProgress : m.world.NoProgress
        { w with agenda := some (agenda.setState call.key .handing) } :=
      (hshift _ h.kept.balanced).drift.noProgress.trans (.of_same rfl rfl rfl rfl)
    refine .noArrivals ?_ trivial (hnoProgress.trans (World.drift_release _ _).noProgress)
    rintro frame (_ | ⟨_, member⟩)
    · exact .inr id
    · exact hpush htop id frame member
  | @completed d key fiber result frames htop hcontrol =>
    obtain ⟨w, heq, hshift⟩ := completed_eq (m.goTo frames m.world m.control) d key fiber result
    rw [heq, goTo_goTo, goTo_top]
    exact .noArrivals (htail htop) trivial ((hshift _ _ h.kept.balanced).drift.noProgress.trans
      (.of_same rfl rfl rfl rfl))
  | leaves hrunning htop hcontrol => exact .leaves hrunning htop hcontrol

end Machine

end Fibers
