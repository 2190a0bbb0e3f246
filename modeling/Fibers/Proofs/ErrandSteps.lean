import Fibers.Proofs.ErrandRuns

/-!
A driver whose tasks are errands has errands only, until its run is over. Besides, each step
uses some effort up, unless the loop waits for the host; and no task is lost on the way.
-/

namespace Fibers

namespace World

theorem isSome_claims (w : World) : w.claims.isSome = w.agenda.isSome := by
  rw [claims, Option.isSome_map]

end World

namespace Machine

variable {m m' : Machine} {p : Permit} {d : DriverId} {s : SchedulerId}
  {frames rest stack : List Frame} {x y : HandleRef} {fiber : Fiber} {outcome : Resumption}
  {w : World} {running : Running}

/-! ### Where control goes -/

theorem goTo_running (hrunning : m.running = [running]) (frames : List Frame) (w : World)
    (control : Control) :
    (m.goTo frames w control).running = [{ running with frames }] ∧
    (m.goTo frames w control).root = m.root := by
  obtain ⟨world, levels, root, told⟩ := m
  cases hrunning
  exact ⟨rfl, rfl⟩

/-- A driver that resumes a fiber enters it in a run loop of its own. -/
theorem Hands.inside (h : m.Hands d x outcome s stack w m') (hm : m.Sound True)
    (hstep : m.step? = some m') (hparks : m.ParksFor x fiber s) :
    ∃ running, m'.running = [running] ∧ m'.root = .dispatching s :: .draining s 0 none :: stack ∧
      m'.control = .resumed outcome ∧ fiber = running.fiber := by
  obtain ⟨⟨running, below, hrunning, hfiber⟩, hcontrol⟩ := h.enters hm hparks
  obtain ⟨cell, hcell, hslot⟩ := h.cell hparks
  have hm' := hm.step hstep
  have hhome : running.home = some s := (congrArg Fiber.home hfiber).trans hparks.home
  obtain ⟨hbelow, -, ran, max, frames, hroot⟩ := hm'.under_loop hrunning hhome
  have hoff := goTo_running_eq_nil m stack w .advance h.outside
  have hcurrent : (m.goTo stack w .advance).world.current = none := by
    rw [goTo_world, h.noArrivals.current, hm.current, h.outside]
    rfl
  obtain ⟨-, hlooping, -⟩ := deliver_begins (h.eq ▸ hm') hoff.1 hcurrent hcell hslot
  rw [← h.eq, hoff.2] at hlooping
  rcases hlooping with hloop | hloop
  · rw [hloop] at hroot
    cases hroot
  · exact ⟨running, hbelow ▸ hrunning, hloop, hcontrol, hfiber.symm⟩

/-- A fiber that control is inside of above a run loop is a task of its scheduler. -/
theorem Sound.home_of_loop {byHand : Prop} {ran : Nat} {max : Option Nat} (hm : m.Sound byHand)
    (hrunning : m.running = [running])
    (hroot : m.root = .dispatching s :: .draining s ran max :: rest) : running.home = some s := by
  have hnested := hm.nested
  rw [hrunning, hroot] at hnested
  exact hnested.2.1.2.1

/-- What a run loop starts is a task of its scheduler, alone. -/
theorem Starts.inside {entry : Runnable} {ran : Nat} {max : Option Nat}
    (h : Starts s (.draining s ran max :: rest) m m' entry) (hm' : m'.Sound True)
    (herrand : entry.IsErrand p) :
    m'.running = [] ∧ m'.root = .draining s ran max :: rest ∧ m'.control = .advance ∨
      ∃ running, m'.running = [running] ∧ m'.root = .dispatching s :: .draining s ran max :: rest ∧
        running.home = some s ∧ ∀ frame ∈ running.frames, frame.IsErrand p := by
  cases h with
  | unstarted hrunning hroot hcontrol => exact .inl ⟨hrunning, hroot, hcontrol⟩
  | started hrunning hroot hhome hid hframes =>
    refine .inr ⟨_, hrunning, hroot, hhome, fun frame member => ?_⟩
    rw [hframes, List.mem_singleton] at member
    exact member ▸ herrand
  | resumed hrunning hroot hfiber =>
    refine .inr ⟨_, hrunning, hroot, hm'.home_of_loop hrunning hroot,
      fun frame member => herrand frame ?_⟩
    rw [hfiber]
    exact member

/-! ### The run goes on -/

theorem ErrandStep.positions (h : m.ErrandStep p d s rest m') (hd : (m.world.driver? d).isSome)
    (hgoes : ¬m.RunsOut d m') : m'.world.positions = m.world.positions := by
  have haside : m'.world.aside = m.world.aside → m'.world.positions = m.world.positions := fun h =>
    congrArg Aside.positions h
  cases h with
  | asks | hears | settles => rfl
  | goesOn hrunning hroot hphase hnoProgress hhosts hposts => exact hposts.positions
  | ends hends => exact absurd hends hgoes
  | resumes hroot hhands =>
    refine haside ?_
    rw [hhands.eq, aside_deliver, goTo_world]
  | completes hroot hhands hparks hclaims hclaim hgiven hposts => exact hposts.positions
  | @completed key turns fiber result =>
    rw [Machine.completed.eq_def]
    cases result <;> rfl
  | drains hbase hrunning hroot hcontrol hdrains h => exact haside h
  | receives hbase hrunning hroot hcontrol hreceives h => exact haside h
  | errandMove hbase hrunning hroot herrandMove =>
    cases herrandMove with
    | goesOn pushed htop hcontrol hpushed hless hcode hnoProgress h => exact haside h
    | enqueues => exact haside (World.aside_of_surroundings (World.surroundings_enqueue ..))
    | @calls action todo guards frames x plan w htop hcontrol hlabor htakes =>
      rw [suspendAwait_eq hrunning]
      exact (htakes.gets hd).positions
    | concludes htop hcontrol hcode hnoProgress h => exact haside h
    | leaves => exact haside (World.aside_of_surroundings (surroundings_leave ..))

/-- A call of the driver that is issued, or one more that waits for all calls, is in its hands. -/
theorem InHand.gets {plan : AwaitPlan} (htakes : m.world.Takes d x plan w)
    (hd : (m.world.driver? d).isSome) (hclaims : m.world.claims.isSome)
    (hsame : m'.world.claims = w.claims) (hwaiters : m'.world.waiters d = w.waiters d) :
    m'.InHand d x := by
  obtain ⟨claims, hclaims⟩ := Option.isSome_iff_exists.1 hclaims
  rcases (htakes.gets hd).hands with ⟨key, hafter, -⟩ | ⟨-, hafter⟩
  · rw [hclaims] at hafter
    exact .call (hsame.trans hafter) (List.mem_append_right _ (List.mem_singleton_self _))
  · exact .lined
      (List.mem_append_right _
        (hwaiters ▸ hafter ▸ List.mem_append_right _ (List.mem_singleton_self _)))

/-- Where control is after a step of an errand. -/
theorem ErrandMove.stage {base : List Frame} {ran : Nat} (h : m.ErrandMove p d m')
    (hm : m.Sound True) (hbase : LoopBase d rest base) (hrunning : m.running = [running])
    (hroot : m.root = .dispatching s :: .draining s ran none :: base)
    (hd : (m.world.driver? d).isSome) (hclaims : m.world.claims.isSome)
    (herrand : ∀ frame ∈ m.top, frame.IsErrand p) :
    m'.Stage p d s rest := by
  have hhome := hm.home_of_loop hrunning hroot
  have hinside : ∀ {frames : List Frame} {w : World} {control : Control},
      (∀ frame ∈ frames, frame.IsErrand p) →
      (m.goTo frames w control).Stage p d s rest := fun {frames w control} herrand =>
    .inside hbase (goTo_running hrunning frames w control).1
      ((goTo_running hrunning frames w control).2.trans hroot) hhome herrand
  cases h with
  | goesOn pushed htop hcontrol hpushed =>
    refine hinside fun frame member => ?_
    rcases List.mem_append.1 member with hnew | hold
    · exact (hpushed frame hnew).2
    · exact herrand frame (htop ▸ List.mem_cons_of_mem _ hold)
  | @enqueues action todo guards frames body t scheduler shown htop =>
    refine hinside fun frame member => ?_
    rcases List.mem_cons.1 member with rfl | hold
    · exact (herrand _ (htop ▸ List.mem_cons_self ..)).next
    · exact herrand frame (htop ▸ List.mem_cons_of_mem _ hold)
  | @calls action todo guards frames x plan w htop hcontrol hlabor htakes =>
    rw [suspendAwait_eq hrunning]
    refine .back hbase rfl hroot rfl hhome fun y heq => ?_
    cases heq
    refine ⟨fun frame member => ?_, .gets htakes hd hclaims rfl rfl⟩
    rcases List.mem_cons.1 member with rfl | hmore
    · trivial
    · rcases List.mem_cons.1 hmore with rfl | hold
      · exact (herrand _ (htop ▸ List.mem_cons_self ..)).next
      · exact herrand frame (htop ▸ List.mem_cons_of_mem _ hold)
  | concludes htop =>
    exact hinside fun frame member => herrand frame (htop ▸ List.mem_cons_of_mem _ member)
  | @leaves inner below exit hinner htop hcontrol hexit =>
    rw [hrunning] at hinner
    cases hinner
    exact .back hbase rfl hroot rfl hhome fun x heq => absurd heq (hexit x)

/-- Where control is after a step, unless the run is over. -/
theorem RunsErrands.stage_step (h : m.RunsErrands p d s rest) (hstep : m.step? = some m')
    (hgoes : ¬m.RunsOut d m') : m'.Stage p d s rest := by
  have hm := h.ordinary.sound
  have hm' := hm.step hstep
  have hclaims : m.world.claims.isSome := (World.isSome_claims _).trans h.agenda
  have hd : (m.world.driver? d).isSome := isSome_driver? ⟨s, h.fed⟩
  have hoff : ∀ {frames : List Frame} {w : World} {control : Control}, m.running = [] →
      (m.goTo frames w control).running = [] ∧ (m.goTo frames w control).root =
      frames := fun hrunning =>
    goTo_running_eq_nil _ _ _ _ hrunning
  have hresumed : ∀ {x fiber outcome stack w}, m.Hands d x outcome s stack w m' →
      m.ParksFor x fiber s → LoopBase d rest stack → m'.Stage p d s rest := by
    intro x fiber outcome stack w hhands hparks hbase
    obtain ⟨running, hrunning, hroot, -, hfiber⟩ := hhands.inside hm hstep hparks
    obtain ⟨cell, hcell, hslot⟩ := hparks.parked
    refine .inside hbase hrunning hroot ((congrArg Fiber.home hfiber).symm.trans hparks.home)
      fun frame member => ?_
    exact h.parked hhands.held ⟨cell, _, hcell, hslot⟩ frame (hfiber ▸ member)
  cases h.errandStep hstep with
  | asks hrunning => exact .drains .drain (hoff hrunning).1 (hoff hrunning).2 rfl
  | goesOn hrunning | hears hrunning | settles hrunning =>
    exact .loop (hoff hrunning).1 (hoff hrunning).2 rfl
  | ends hends => exact absurd hends hgoes
  | resumes hroot hhands hparks => exact hresumed hhands hparks (.resuming ..)
  | completes hroot hhands hparks => exact hresumed hhands hparks (.completing ..)
  | @completed key turns fiber result hrunning =>
    obtain ⟨w, heq, -⟩ :=
      completed_eq (m.goTo (.driving d (.poll turns) :: rest) m.world m.control) d key fiber result
    rw [goTo_top, goTo_goTo] at heq
    rw [heq]
    exact .loop (hoff hrunning).1 (hoff hrunning).2 rfl
  | @drains _ base ran hbase hrunning hroot hcontrol hdrains =>
    have htop : m.top = .draining s ran none :: base := by rw [top, hrunning]; exact hroot
    rcases hdrains.takes hm htop hcontrol with ⟨rfl, -⟩ | ⟨entry, htakes⟩
    · exact .answered hbase (hoff hrunning).1 (hoff hrunning).2 rfl
    · obtain ⟨u, hgives, -, -⟩ := htakes.gives
      have herrand := h.queued entry (hgives.queue ▸ List.mem_cons_self ..)
      rcases htakes.starts.inside hm' herrand with
        ⟨hrunning', hroot', hcontrol'⟩ | ⟨running, hrunning', hroot', hhome, hframes⟩
      · exact .drains hbase hrunning' hroot' hcontrol'
      · exact .inside hbase hrunning' hroot' hhome hframes
  | receives hbase hrunning => exact .drains hbase (hoff hrunning).1 (hoff hrunning).2 rfl
  | errandMove hbase hrunning hroot herrandMove =>
    refine herrandMove.stage hm hbase hrunning hroot hd hclaims fun frame member => ?_
    cases h.stage with
    | inside hbase' hrunning' hroot' hhome herrand =>
      rw [top, hrunning'] at member
      exact herrand frame member
    | loop hidle | answered _ hidle | drains _ hidle | back _ hidle =>
      rw [hrunning] at hidle
      cases hidle

/-- Code that runs is an errand. -/
theorem RunsErrands.errand_of_next (h : m.RunsErrands p d s rest) {action : Action}
    (hnext : m.nextAction? = some action) : action.isErrand p = true := by
  have hinside : m.running ≠ [] := fun hrunning => by
    rw [h.nextAction?_of_root hrunning] at hnext
    cases hnext
  cases h.stage with
  | inside hbase hrunning hroot hhome herrand =>
    rw [nextAction?] at hnext
    split at hnext
    next first todo guards frames hcontrol htop =>
      cases hnext
      rw [top, hrunning, stackUnder] at htop
      have hcode : Frame.IsErrand p (.actions (action :: todo) guards) :=
        herrand _ (htop ▸ List.mem_cons_self ..)
      exact (Bool.and_eq_true_iff.1 hcode).1
    next => cases hnext
  | loop hidle | answered _ hidle | drains _ hidle | back _ hidle => exact absurd hidle hinside

/-- No future of an errand's call panics. -/
theorem Action.isErrand_endsWith {action : Action} {ending : Ending} (h : action.isErrand p = true)
    (hends : Action.EndsWith w action.core ending) : ending ≠ .panicked := by
  rintro rfl
  cases action with
  | call position type outcome wait onError keepIn =>
    cases hends
    cases h
  | foreign => cases h
  | _ => cases hends

/-- Calls that are alive go on keeping an outcome. -/
theorem RunsErrands.whole_step (h : m.RunsErrands p d s rest) (hstep : m.step? = some m')
    {key : Nat} {x : HandleRef} {ending : Ending}
    (hkept : (key, some (x, ending)) ∈ m'.world.promises) : ending ≠ .panicked := by
  rcases h.ordinary.sound.issues hstep hkept with hbefore | hissues
  · exact h.whole hbefore
  · obtain ⟨_, ⟨action, hnext, rfl⟩, hends⟩ := hissues.future
    exact Action.isErrand_endsWith (h.errand_of_next hnext) hends

theorem lasting_fedBy (d : DriverId) : Lasting fun w t => w.fedBy d = some t := fun hfed h => hfed h

/-- The driver goes on with errands until its run is over. -/
theorem RunsErrands.step (h : m.RunsErrands p d s rest) (hstep : m.step? = some m')
    (hgoes : ¬m.RunsOut d m') : m'.RunsErrands p d s rest := by
  have hm := h.ordinary.sound
  have hm' := hm.step hstep
  have herrandStep := h.errandStep hstep
  have hd : (m.world.driver? d).isSome := isSome_driver? ⟨s, h.fed⟩
  have hclaims : m.world.claims.isSome := (World.isSome_claims _).trans h.agenda
  have hmoves : Moves (fun _ => True) m m' := step_moves hstep hm fun _ _ => trivial
  have hworks := hm.works hmoves
  have hpositions := herrandStep.positions hd hgoes
  have hcalls := herrandStep.claims_step hd hgoes
  have hused : m.UsedBy (fun w t => w.fedBy d = some t) (fun _ => true) d := by
    intro running hasks
    cases h.stage with
    | inside hbase hrunning hroot hhome =>
      rw [asker?] at hasks
      split at hasks
      · cases hasks
      · split at hasks
        · rw [hrunning] at hasks
          cases hasks
          exact ⟨s, hhome, h.fed⟩
        · cases hasks
    | loop hrunning | answered _ hrunning | drains _ hrunning | back _ hrunning =>
      rw [asker?, h.nextAction?_of_root hrunning] at hasks
      cases hasks
  exact
    { ordinary := h.ordinary.step hstep
      attends := h.attends.moves hm hm' h.ordinary.attended h.ordinary.hosted h.ordinary.distinct
        hused (lasting_fedBy d) hstep
      position := by rw [World.driverAt, hpositions]; exact h.position
      enqueues := by
        intro t ht
        rw [World.schedulerAt, hpositions] at ht
        exact h.enqueues t ht
      fed := hworks.fed h.fed
      agenda := by
        rw [← World.isSome_claims]
        rcases hcalls with
          heq | ⟨key, x, plan, w, -, heq⟩ | ⟨key, x, outcome, stack, w, claims, -, -, -, heq⟩ |
          ⟨key, fiber, turns, -, heq⟩
        · rwa [heq]
        · rwa [heq, Option.isSome_map]
        · rw [heq]
          rfl
        · rwa [heq, Option.isSome_map]
      claims := by
        intro claims' hclaims' claim member
        obtain ⟨claims, hbefore⟩ := Option.isSome_iff_exists.1 hclaims
        have hold : ∀ old ∈ claims, old.2.1 = d := h.claims hbefore
        rw [hclaims', hbefore] at hcalls
        rcases hcalls with
          heq | ⟨key, x, plan, w, -, heq⟩ | ⟨key, x, outcome, stack, w, others, -,
          hothers, -, heq⟩ | ⟨key, fiber, turns, -, heq⟩
        · cases heq
          exact hold claim member
        · cases heq
          rcases List.mem_append.1 member with hmem | hmem
          · exact hold claim hmem
          · rw [List.mem_singleton.1 hmem]
        · cases hothers
          cases heq
          obtain ⟨old, hmem, rfl⟩ := List.mem_map.1 member
          rw [givenUp]
          split
          · exact hold old hmem
          · exact hold old hmem
        · cases heq
          exact hold claim (List.mem_of_mem_filter member)
      whole := h.whole_step hstep
      queued := fun entry member => (h.queued_step herrandStep hstep member).elim
        (h.queued entry) And.right
      parked := by
        intro x fiber hx hparked
        rcases h.parkedIn_step herrandStep hgoes hparked with hbefore | ⟨y, hcontrol⟩
        · rcases hworks.inHand hx with hheld | ⟨plan, w, hopens, -, -⟩
          · exact h.parked hheld hbefore
          · obtain ⟨cell, owner, hcell, -⟩ := hbefore
            rw [hopens.unmade] at hcell
            cases hcell
        · exact h.errand_of_back hcontrol ⟨y, rfl⟩
      plain := h.plain
      stage := h.stage_step hstep hgoes }

/-! ### The host goes on -/

section Stirs

variable (hstirs : m.world.Stirs w)
include hstirs

/-- Whatever the host does, the driver has errands only. -/
theorem RunsErrands.stirs (h : m.RunsErrands p d s rest) :
    (m.withWorld w).RunsErrands p d s rest := by
  obtain ⟨hrest, hclaims, -⟩ := id hstirs
  have hpositions : w.positions = m.world.positions := by rw [hrest]
  exact
    { ordinary := h.ordinary.stirs hstirs
      attends := h.attends.stirs (fun hfed => hfed) hstirs
      position := by rw [World.driverAt, withWorld_world, hpositions]; exact h.position
      enqueues := by
        intro t ht
        rw [World.schedulerAt, withWorld_world, hpositions] at ht
        exact h.enqueues t ht
      fed := by
        rw [withWorld_world, hrest]
        exact h.fed
      agenda := by rw [withWorld_world, hstirs.isSome_agenda]; exact h.agenda
      claims := fun heq => h.claims (hclaims ▸ heq)
      whole := fun member => h.whole (hstirs.promises ▸ member)
      queued := by
        rw [withWorld_world, hrest]
        exact h.queued
      parked := by
        intro x fiber hx hparked
        refine h.parked ((inHand_of_stirs hstirs).1 hx) ?_
        rw [withWorld_world, hrest] at hparked
        exact hparked
      plain := h.plain
      stage := by
        cases h.stage with
        | loop hrunning hroot hcontrol => exact .loop hrunning hroot hcontrol
        | answered hbase hrunning hroot hcontrol => exact .answered hbase hrunning hroot hcontrol
        | drains hbase hrunning hroot hcontrol => exact .drains hbase hrunning hroot hcontrol
        | back hbase hrunning hroot hcontrol hhome hback =>
          exact .back hbase hrunning hroot hcontrol hhome fun x hexit =>
            ⟨(hback x hexit).1, (inHand_of_stirs hstirs).2 (hback x hexit).2⟩
        | inside hbase hrunning hroot hhome herrand =>
          exact .inside hbase hrunning hroot hhome herrand }

end Stirs

end Machine

end Fibers
