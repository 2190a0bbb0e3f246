import Fibers.Proofs.ErrandSteps

/-!
The run of a driver whose tasks are errands comes to an end if the host does its part. What
is left to do is bounded by an effort that every step uses some up of, unless the loop waits:
the labor of the code, and what the loop does for each fiber that waits and for each call.
-/

namespace Fibers

/-- What the loop of a driver does apart from what its frames stand for. -/
def Frame.loopWork : Frame → Nat
  | .driving _ .drain => 1
  | .driving _ (.settle waiters) => 4 + 2 * waiters.length
  | .driving _ (.resuming _ waiters) => 5 + 2 * waiters.length
  | .completing .. => 4
  | _ => 0

/-- A loop that is about to ask for a run loop does two things more than one that has asked. -/
def Control.asks : List Frame → Control → Nat
  | .driving _ .drain :: _, .advance => 2
  | _, _ => 0

/-- What a notification, those who wait for all calls, and calls that hold a handle make a
driver do. -/
def World.dues (w : World) (d : DriverId) : Nat :=
  (if w.notified d then 4 else 0) + 6 * (w.waiters d).length +
    6 * (w.claims.getD []).countP fun claim => claim.2.2.isSome

@[simp]
theorem Control.labor_advance : Control.labor .advance = 0 := rfl

theorem Control.IsCode.labor {control : Control} (h : control.IsCode) : control.labor = 0 := by
  cases control with
  | advance | raise | panicking => rfl
  | resumed | back | answer => exact h.elim

namespace Machine

/-- What is left to do in the run of the driver, but for waiting. -/
def effort (m : Machine) (d : DriverId) : Nat :=
  m.labor + weigh Frame.loopWork m.root + m.control.asks m.root + m.world.dues d

variable {m m' : Machine} {p : Permit} {d : DriverId} {s : SchedulerId}
  {frames rest stack : List Frame} {x y : HandleRef} {fiber : Fiber} {outcome : Resumption}
  {w : World} {control : Control} {running : Running}

/-- Outside of fibers there is the root, the world and control. -/
theorem effort_root (hrunning : m.running = []) (frames : List Frame) (w : World)
    (control : Control) (d : DriverId) :
    (m.goTo frames w control).effort d = w.labor + control.labor + weigh Frame.labor frames +
      weigh Frame.loopWork frames + control.asks frames + w.dues d := by
  obtain ⟨hoff, hroot⟩ := goTo_running_eq_nil m frames w control hrunning
  rw [effort, labor, hoff, hroot, goTo_world, goTo_control, weigh_nil]
  omega

theorem effort_of_root (hrunning : m.running = []) (d : DriverId) :
    m.effort d = m.world.labor + m.control.labor + weigh Frame.labor m.root +
      weigh Frame.loopWork m.root + m.control.asks m.root + m.world.dues d := by
  rw [effort, labor, hrunning, weigh_nil]
  omega

end Machine

namespace World

variable {w w' : World} {d : DriverId} {key : Nat} {x : HandleRef}
  {claims : List (Nat × DriverId × Option HandleRef)}

theorem dues_of_same (hnotified : w'.notified d = w.notified d)
    (hwaiters : w'.waiters d = w.waiters d) (hclaims : w'.claims = w.claims) :
    w'.dues d = w.dues d := by
  rw [dues, hnotified, hwaiters, hclaims, dues]

theorem dues_of_aside (h : w'.aside = w.aside) (d : DriverId) : w'.dues d = w.dues d := by
  have hdriver : w'.driver? d = w.driver? d := driver?_of_aside h d
  refine dues_of_same ?_ ?_ ?_
  · rw [notified, hdriver, notified]
  · rw [waiters, hdriver, waiters]
  · rw [World.claims, agenda_of_aside h, World.claims]

theorem dues_of_posts (h : w.SamePosts w') (hclaims : w'.claims = w.claims) (d : DriverId) :
    w'.dues d = w.dues d := by
  have hdriver : w'.driver? d = w.driver? d := by rw [driver?, h.drivers, driver?]
  refine dues_of_same ?_ ?_ hclaims
  · rw [notified, hdriver, notified]
  · rw [waiters, hdriver, waiters]

/-- A call that hands its outcome over holds nothing any more. -/
theorem countP_givenUp_lt (hclaim : (key, d, some x) ∈ claims) :
    (claims.map (Machine.givenUp key)).countP (fun claim => claim.2.2.isSome) <
      claims.countP fun claim => claim.2.2.isSome := by
  have hle : ∀ others : List (Nat × DriverId × Option HandleRef),
      (others.map (Machine.givenUp key)).countP (fun claim => claim.2.2.isSome) ≤
        others.countP fun claim => claim.2.2.isSome := fun others => by
    rw [List.countP_map]
    refine List.countP_mono_left fun claim _ hsome => ?_
    rw [Function.comp_apply, Machine.givenUp] at hsome
    split at hsome
    · cases hsome
    · exact hsome
  obtain ⟨before, after, rfl⟩ := List.append_of_mem hclaim
  have hbefore := hle before
  have hafter := hle after
  have hgiven : Machine.givenUp key (key, d, some x) = (key, d, none) := if_pos rfl
  rw [List.map_append, List.map_cons, hgiven, List.countP_append, List.countP_cons,
    List.countP_append, List.countP_cons]
  simp only [Option.isSome_none, Option.isSome_some, if_true, Bool.false_eq_true, if_false]
  omega

theorem dues_heard (hnotified : w.notified d = true) : (w.heard d).dues d + 4 = w.dues d := by
  have hheard : (w.heard d).notified d = false := by
    rw [notified, heard, driver?_updateDriver, if_pos rfl]
    cases w.driver? d <;> rfl
  have hwaiters : (w.heard d).waiters d = w.waiters d := waiters_updateDriver w d d fun _ => rfl
  have hclaims : (w.heard d).claims = w.claims := rfl
  rw [dues, dues, hheard, hnotified, hwaiters, hclaims]
  simp only [Bool.false_eq_true, if_false, if_true]
  omega

theorem dues_settled (w : World) (d : DriverId) (fibers : Nat) :
    ((w.updateDriver d fun driver => { driver with waiting := [] }).tell (.settled fibers)).dues d +
      6 * (w.waiters d).length = w.dues d := by
  have hnotified :
      ((w.updateDriver d fun driver => { driver with waiting := [] }).tell
      (.settled fibers)).notified d = w.notified d := by
    change Option.any _ ((w.updateDriver d _).driver? d) = _
    rw [driver?_updateDriver, if_pos rfl, notified]
    cases w.driver? d <;> rfl
  have hclaims :
      ((w.updateDriver d fun driver => { driver with waiting := [] }).tell
      (.settled fibers)).claims = w.claims := rfl
  rw [dues, dues, waiters_settled, if_pos rfl, hnotified, hclaims, List.length_nil]
  omega

/-- A call that hands its outcome over has nothing to hand over any more. -/
theorem dues_givenUp (hposts : w.SamePosts w') (hclaims : w.claims = some claims)
    (hclaim : (key, d, some x) ∈ claims)
    (hgiven : w'.claims = some (claims.map (Machine.givenUp key))) : w'.dues d + 6 ≤ w.dues d := by
  have hdriver : w'.driver? d = w.driver? d := by rw [driver?, hposts.drivers, driver?]
  have hless := countP_givenUp_lt hclaim
  rw [dues, dues, notified, waiters, hdriver, hgiven, hclaims, notified, waiters, Option.getD_some,
    Option.getD_some]
  omega

/-- A call that is over notifies the driver. -/
theorem dues_over (h : w.SameTallies w') (d : DriverId) (key : Nat) :
    ((w'.updateAgenda fun agenda => agenda.remove key).callOver d).dues d ≤ w.dues d + 4 := by
  have hwaiters : ((w'.updateAgenda fun agenda => agenda.remove key).callOver d).waiters d =
      w.waiters d :=
    (waiters_callOver ..).trans (h.waiters d)
  have hclaims : ((w'.updateAgenda fun agenda => agenda.remove key).callOver d).claims =
      w.claims.map (·.filter fun claim => claim.1 ≠ key) := by
    rw [← h.claims, claims_callOver_remove]
  have hless : ((w.claims.map (·.filter fun claim => claim.1 ≠ key)).getD []).countP
      (fun claim => claim.2.2.isSome) ≤
      (w.claims.getD []).countP fun claim => claim.2.2.isSome := by
    cases w.claims with
    | none => exact Nat.le_refl _
    | some claims => exact List.Sublist.countP_le List.filter_sublist
  rw [dues, dues, hwaiters, hclaims]
  split <;> omega

/-- Who comes to wait makes the driver do something. -/
theorem Gets.dues (h : w.Gets d x w') (hclaims : w.claims.isSome) : w'.dues d = w.dues d + 6 := by
  obtain ⟨claims, hclaims⟩ := Option.isSome_iff_exists.1 hclaims
  obtain ⟨-, hnotified, ⟨key, hafter, hwaiters⟩ | ⟨hafter, hwaiters⟩⟩ := h
  · rw [World.dues, World.dues, hnotified, hwaiters, hafter, hclaims]
    simp only [Option.map_some, Option.getD_some, List.countP_append, List.countP_singleton,
      Option.isSome_some, if_true]
    omega
  · rw [World.dues, World.dues, hnotified, hwaiters, hafter, List.length_append,
      List.length_singleton]
    omega

end World

namespace Machine

variable {m m' : Machine} {p : Permit} {d : DriverId} {s : SchedulerId}
  {frames rest stack : List Frame} {x y : HandleRef} {fiber : Fiber} {outcome : Resumption}
  {w : World} {control : Control} {running : Running}

/-- What an errand does uses effort up. -/
theorem ErrandMove.effort_lt {base : List Frame} {ran : Nat} (h : m.ErrandMove p d m')
    (hrunning : m.running = [running])
    (hroot : m.root = .dispatching s :: .draining s ran none :: base)
    (hd : (m.world.driver? d).isSome) (hclaims : m.world.claims.isSome) :
    m'.effort d < m.effort d := by
  have hasks : ∀ control : Control, control.asks m.root = 0 := fun control => by rw [hroot]; rfl
  obtain ⟨beneath, hgo⟩ := m.exists_labor_goTo
  have hlabor := hgo m.top m.world m.control
  rw [goTo_self] at hlabor
  have hlevel : ∀ frames w control,
      (m.goTo frames w control).root = m.root := fun frames w control =>
    (goTo_running hrunning frames w control).2
  have heffort : ∀ frames w control, w.labor + control.labor + weigh Frame.labor frames + w.dues d <
      m.world.labor + m.control.labor + weigh Frame.labor m.top + m.world.dues d →
        (m.goTo frames w control).effort d < m.effort d := fun frames w control hlt => by
    rw [effort, effort, hlevel, hasks, hasks, hgo, hlabor, goTo_world]
    omega
  cases h with
  | @goesOn frame pushed frames w control htop hcontrol hpushed hless hcode hnoProgress haside =>
    have hworld := hnoProgress.toNoArrivals.labor_le
    refine heffort _ _ _ ?_
    rw [World.dues_of_aside haside, htop, weigh_append, weigh_cons, hcode.labor]
    omega
  | @enqueues action todo guards frames body t scheduler shown htop hcontrol hlabor hbody
    hposition hs =>
    have hworld := World.labor_enqueue hs body
    refine heffort _ _ _ ?_
    rw [World.labor_emit,
      World.dues_of_aside
      (World.aside_of_surroundings
        ((World.surroundings_emit ..).trans (World.surroundings_enqueue ..))), htop]
    simp only [weigh_cons, Frame.labor, Action.codeLabor, Control.labor]
    omega
  | @calls action todo guards frames x plan w htop hcontrol hcall htakes =>
    have hworld := htakes.opens.labor_le
    have hdues : World.dues { w with current := running.outer } d = m.world.dues d + 6 :=
      (htakes.gets hd).dues hclaims
    have hframes : running.frames = .actions (action :: todo) guards :: frames := by
      rwa [top, hrunning] at htop
    rw [suspendAwait_eq hrunning, effort, effort, hasks, hasks, hdues]
    have hsame : World.labor { w with current := running.outer } = w.labor := rfl
    simp only [labor, hrunning, weigh_cons, weigh_nil, Running.labor, hframes, Frame.labor,
      Action.codeLabor, Control.labor, Running.leave, Fiber.labor, hcall, hsame]
    omega
  | concludes htop hcontrol hcode hnoProgress haside =>
    have hworld := hnoProgress.toNoArrivals.labor_le
    rw [World.labor_mark] at hworld
    refine heffort _ _ _ ?_
    have hframe : ∀ x plan, Frame.labor (.awaiting x plan) = 1 := fun _ _ => rfl
    rw [World.dues_of_aside haside, htop, weigh_cons, hcode.labor, hframe]
    omega
  | @leaves inner below exit hinner htop hcontrol hexit =>
    obtain ⟨w, hhandles, hschedulers, hnoArrivals⟩ := noArrivals_of_leave m inner below exit
    have hworld := hnoArrivals.labor_le
    have hsame : w.labor = m.world.labor := by rw [World.labor, hhandles, hschedulers, World.labor]
    have hdues : (m.leave inner below exit).world.dues d = m.world.dues d :=
      World.dues_of_aside (World.aside_of_surroundings (surroundings_leave ..)) d
    have hback : Control.labor (.back (inner.leave .finished) exit) = 0 := by
      cases exit with
      | suspended x => exact absurd rfl (hexit x)
      | completed | failed | panicked => rfl
    have hafter : (m.leave inner below exit).labor =
        (m.leave inner below exit).world.labor + 0 + weigh Running.labor below +
        weigh Frame.labor m.root := by
      rw [← hback]
      rfl
    have hbefore : weigh Running.labor m.running = 1 + weigh Frame.labor inner.frames +
        weigh Running.labor below := by
      rw [hinner, weigh_cons, Running.labor]
    rw [effort, effort, hdues, hasks, hafter, labor, hbefore]
    have hleft : (m.leave inner below exit).root = m.root := rfl
    rw [hleft, hasks]
    omega

/-- A driver that hands something over moves what is parked, and nothing else. -/
theorem Hands.labor_le (h : m.Hands d x outcome s stack w m') (hm : m.Sound True) :
    m'.labor ≤ m.world.labor + weigh Frame.labor stack ∧ m'.world.aside = w.aside := by
  obtain ⟨cell, hcell⟩ := World.exists_cell h.alive
  have hdelivers := (m.goTo stack w .advance).delivers s hcell outcome
  rw [← h.eq] at hdelivers
  have hlabor := hdelivers.labor_le rfl hcell fun _ =>
    hm.kept.orderly.rests_of_noArrivals h.noArrivals hcell
  have hworld := h.noArrivals.labor_le
  obtain ⟨hoff, hroot⟩ := goTo_running_eq_nil m stack w .advance h.outside
  have hbefore : (m.goTo stack w .advance).labor = w.labor + weigh Frame.labor stack := by
    rw [labor, hoff, hroot, goTo_world, goTo_control, weigh_nil, Control.labor_advance]
    omega
  refine ⟨by omega, ?_⟩
  rw [h.eq, aside_deliver, goTo_world]

/-- The loop of the driver waits for the host. -/
structure Idling (m : Machine) (d : DriverId) (rest : List Frame) (m' : Machine) : Prop where
  hosts : m.world.SameHosts m'.world
  phases : ∃ phase phase', m.root = .driving d phase :: rest ∧ m'.root = .driving d phase' :: rest ∧
    phase.Listens ∧ phase.GoesOn phase'

/-- A loop that waits goes on without using effort up; whatever else a step does uses some up. -/
theorem RunsErrands.effort_step (h : m.RunsErrands p d s rest) (hstep : m.step? = some m')
    (hgoes : ¬m.RunsOut d m') :
    m'.effort d < m.effort d ∨ m'.effort d ≤ m.effort d ∧ m.Idling d rest m' := by
  have hm := h.ordinary.sound
  have hm' := hm.step hstep
  have hd : (m.world.driver? d).isSome := isSome_driver? ⟨s, h.fed⟩
  have hclaims : m.world.claims.isSome := (World.isSome_claims _).trans h.agenda
  cases h.errandStep hstep with
  | asks hrunning hroot hcontrol =>
    left
    rw [effort_root hrunning, effort_of_root hrunning, hroot, hcontrol]
    simp only [weigh_cons, Frame.labor, Frame.loopWork, Control.asks]
    omega
  | @goesOn phase phase' w hrunning hroot hphase hnoProgress hhosts hposts =>
    have hworld := hnoProgress.toNoArrivals.labor_le
    have hdues := World.dues_of_posts hposts hhosts.claims d
    have hroot' := (goTo_running_eq_nil m (.driving d phase' :: rest) w .advance hrunning).2
    cases hphase with
    | listens | settled | resumed =>
      left
      rw [effort_root hrunning, effort_of_root hrunning, hroot, hdues]
      simp only [weigh_cons, Frame.labor, Frame.loopWork, Control.asks, Control.labor_advance,
        List.length_nil]
      omega
    | elapses | polls | turns | polled =>
      refine .inr ⟨?_, hhosts, _, _, hroot, hroot', trivial, by constructor⟩
      rw [effort_root hrunning, effort_of_root hrunning, hroot, hdues]
      simp only [weigh_cons, Frame.labor, Frame.loopWork, Control.asks, Control.labor_advance]
      omega
  | hears hrunning hroot hcontrol hnotified =>
    left
    have hdues := World.dues_heard hnotified
    have hlabor : (m.world.heard d).labor = m.world.labor := rfl
    rw [effort_root hrunning, effort_of_root hrunning, hroot, hcontrol, hlabor]
    simp only [weigh_cons, Frame.labor, Frame.loopWork, Control.asks]
    omega
  | @settles driver n hrunning hroot hcontrol hdriver hwaiting =>
    left
    have hdues := World.dues_settled m.world d driver.waiting.length
    have hwaiters : m.world.waiters d = driver.waiting := by rw [World.waiters, hdriver]; rfl
    have hpos : 0 < driver.waiting.length := List.length_pos_iff.2 hwaiting
    have hlabor : ((m.world.updateDriver d fun driver => { driver with waiting := [] }).tell
      (.settled driver.waiting.length)).labor = m.world.labor := rfl
    rw [hwaiters] at hdues
    rw [effort_root hrunning, effort_of_root hrunning, hroot, hcontrol, hlabor]
    simp only [weigh_cons, Frame.labor, Frame.loopWork, Control.asks, Control.labor_advance]
    omega
  | ends hends => exact absurd hends hgoes
  | @resumes _ x waiters fiber hroot hhands hparks =>
    left
    obtain ⟨running, -, hroot', hcontrol', -⟩ := hhands.inside hm hstep hparks
    obtain ⟨hlabor, haside⟩ := hhands.labor_le hm
    rw [effort, hroot', hcontrol', World.dues_of_aside haside, effort_of_root hhands.outside, hroot,
      hhands.advances]
    simp only [weigh_cons, Frame.labor, Frame.loopWork, Control.asks, Control.labor_advance,
      List.length_cons] at hlabor ⊢
    omega
  | completes hroot hhands hparks hclaims hclaim hgiven hposts =>
    left
    obtain ⟨running, -, hroot', hcontrol', -⟩ := hhands.inside hm hstep hparks
    obtain ⟨hlabor, haside⟩ := hhands.labor_le hm
    have hafter : m'.world.claims = _ :=
      (hhands.claims (World.exists_cell hhands.alive)).trans hgiven
    have hdues := World.dues_givenUp hposts hclaims hclaim hafter
    rw [effort, hroot', hcontrol', effort_of_root hhands.outside, hroot, hhands.advances]
    simp only [weigh_cons, Frame.labor, Frame.loopWork, Control.asks, Control.labor_advance]
      at hlabor ⊢
    omega
  | @completed key turns fiber result hrunning hroot hcontrol =>
    left
    obtain ⟨w, heq, hshift⟩ :=
      completed_eq (m.goTo (.driving d (.poll turns) :: rest) m.world m.control) d key fiber result
    rw [goTo_world] at hshift
    rw [goTo_top, goTo_goTo] at heq
    have hworld := (hm.noArrivals hshift).labor_le
    have hdues :=
      World.dues_over ((hshift [] _ hm.kept.balanced).drift.sameHosts).toSameTallies d key
    have hlabor : ((w.updateAgenda fun agenda => agenda.remove key).callOver d).labor =
        w.labor := rfl
    rw [heq, effort_root hrunning, effort_of_root hrunning, hroot, hlabor]
    simp only [weigh_cons, Frame.labor, Frame.loopWork, Control.asks, Control.labor_advance]
    omega
  | @drains _ base ran hbase hrunning hroot hcontrol hdrains haside =>
    left
    have htop : m.top = .draining s ran none :: base := by rw [top, hrunning]; exact hroot
    have hlabor := hdrains.labor_le hm htop
    have hsame : m.goTo (.draining s ran none :: base) m.world .advance = m := by
      rw [← htop, ← hcontrol, goTo_self]
    have hdues := World.dues_of_aside haside d
    have hbefore : m.effort d = m.labor + weigh Frame.loopWork base + m.world.dues d := by
      rw [effort, hroot, hcontrol]
      simp only [weigh_cons, Frame.loopWork, Control.asks]
      omega
    rw [hsame] at hlabor
    suffices weigh Frame.loopWork m'.root = weigh Frame.loopWork base ∧
        m'.control.asks m'.root = 0 by
      rw [hbefore, effort, hdues, this.1, this.2]
      omega
    rcases hdrains.takes hm htop hcontrol with ⟨rfl, -⟩ | ⟨entry, htakes⟩
    · rw [(goTo_running_eq_nil m base m.world (.answer (.ok ran)) hrunning).2]
      exact ⟨rfl, by simp [Control.asks]⟩
    · obtain ⟨u, hgives, -, -⟩ := htakes.gives
      have herrand := h.queued entry (hgives.queue ▸ List.mem_cons_self ..)
      rcases htakes.starts.inside hm' herrand with ⟨-, hroot', -⟩ | ⟨running, -, hroot', -, -⟩ <;>
        rw [hroot'] <;> simp [weigh_cons, Frame.loopWork, Control.asks]
  | @receives base ran fiber exit w hbase hrunning hroot hcontrol hreceives haside =>
    left
    have hworld := labor_receives hm hcontrol hreceives
    have hdues := World.dues_of_aside haside d
    rw [effort_root hrunning, effort_of_root hrunning, hroot, hdues]
    simp only [weigh_cons, Frame.labor, Frame.loopWork, Control.asks, Control.labor_advance]
    omega
  | errandMove hbase hrunning hroot herrandMove =>
    exact .inl (herrandMove.effort_lt hrunning hroot hd hclaims)

/-- What the host does uses no effort up. -/
theorem effort_of_stirs (hstirs : m.world.Stirs w) (d : DriverId) :
    (m.withWorld w).effort d = m.effort d := by
  obtain ⟨hrest, hclaims, -⟩ := hstirs
  have hposts : m.world.SamePosts w := by
    rw [hrest]
    exact ⟨rfl, rfl⟩
  have hlabor : w.labor = m.world.labor := by
    rw [hrest]
    rfl
  rw [effort, effort, withWorld_world, World.dues_of_posts hposts hclaims, labor, labor,
    withWorld_world, hlabor]
  rfl

/-! ### The run never gets stuck -/

theorem RunsErrands.listening {phase : DriverPhase} (h : m.RunsErrands p d s rest)
    (hroot : m.root = .driving d phase :: rest) (hlistens : phase.Listens) : m.running = [] ∧
    m.control = .advance := by
  cases h.stage with
  | loop hrunning _ hcontrol => exact ⟨hrunning, hcontrol⟩
  | answered hbase _ hroot' =>
    rw [hroot] at hroot'
    subst hroot'
    cases hbase <;> exact hlistens.elim
  | drains _ _ hroot' | back _ _ hroot' | inside _ _ hroot' =>
    rw [hroot] at hroot'
    cases hroot'

/-- A driver that is notified hears of it when it listens. -/
theorem RunsErrands.step_of_notified (h : m.RunsErrands p d s rest)
    (hroot : m.root = .driving d .listen :: rest) (hnotified : m.world.notified d = true) :
    m.step? = some (m.goTo (.driving d .drain :: rest) (m.world.heard d) .advance) := by
  obtain ⟨hrunning, hcontrol⟩ := h.listening hroot trivial
  have htop : m.top = .driving d .listen :: rest := by rw [top, hrunning]; exact hroot
  obtain ⟨agenda, hagenda⟩ := Option.isSome_iff_exists.1 h.agenda
  obtain ⟨driver, hd, -⟩ := Option.map_eq_some_iff.1 h.fed
  have hheard : driver.notified = true := by rwa [World.notified, hd] at hnotified
  rw [h.ordinary.sound.step?_of_top htop]
  simp only [react?, stepDriver?, goTo_world, goTo_control, hd, hagenda, hcontrol, listen?, hheard,
    if_true, goTo_withWorld, goTo_push, goTo_advance]
  rfl

/-- A step is possible, unless the driver listens, has not been notified, and the host has
nothing to do. -/
theorem RunsErrands.progress (h : m.RunsErrands p d s rest) :
    (∃ m', m.step? = some m') ∨ m.root = .driving d .listen :: rest ∧ m.world.notified d = false ∧
      ∀ {agenda}, m.world.agenda = some agenda → agenda.ready = [] ∧ agenda.timers = [] := by
  have hm := h.ordinary.sound
  obtain ⟨agenda, hagenda⟩ := Option.isSome_iff_exists.1 h.agenda
  obtain ⟨driver, hd, -⟩ := Option.map_eq_some_iff.1 h.fed
  have htop : m.running = [] → m.top = m.root := fun hrunning => by rw [top, hrunning]; rfl
  have hgoes : (m.running = [] → m.root ≠ []) →
      (∀ e phase frames, m.top ≠ .driving e phase :: frames) →
      ∃ m', m.step? = some m' :=
        fun hroot hdriver => hm.progress (fun hdone => hroot hdone.1 hdone.2) hdriver
  cases h.stage with
  | @loop phase hrunning hroot hcontrol =>
    have hphase := (htop hrunning).trans hroot
    rw [h.ordinary.sound.step?_of_top hphase]
    simp only [react?, stepDriver?, goTo_world, goTo_control, hd, hagenda, hcontrol]
    cases phase with
    | drain | poll => exact .inl ⟨_, rfl⟩
    | listen =>
      cases hnotified : driver.notified with
      | true => simp only [listen?, hnotified, if_true]; exact .inl ⟨_, rfl⟩
      | false =>
        have hsilent : m.world.notified d = false := by
          rw [World.notified, hd]
          exact hnotified
        simp only [listen?, hnotified, Bool.false_eq_true, if_false, Agenda.elapse?]
        cases hready : agenda.ready with
        | cons => exact .inl ⟨_, rfl⟩
        | nil =>
          cases htimers : agenda.timers with
          | cons => exact .inl ⟨_, rfl⟩
          | nil =>
            refine .inr ⟨hroot, hsilent, fun hother => ?_⟩
            cases hother
            exact ⟨hready, htimers⟩
    | settle waiters => cases waiters <;> exact .inl ⟨_, rfl⟩
    | resuming fiber waiters =>
      have haccepts := hm.accepts
      rw [hphase, hcontrol] at haccepts
      exact absurd rfl (haccepts.2.1 fiber waiters)
  | @answered base result hbase hrunning hroot hcontrol =>
    have hframes := (htop hrunning).trans hroot
    left
    cases hbase with
    | drain =>
      have haccepts := hm.accepts
      rw [hframes, hcontrol] at haccepts
      obtain ⟨n, rfl⟩ := haccepts.2.2 d rest rfl
      rw [h.ordinary.sound.step?_of_top hframes]
      simp only [react?, stepDriver?, goTo_world, goTo_control, hd, hagenda, hcontrol]
      exact ⟨_, rfl⟩
    | resuming =>
      rw [h.ordinary.sound.step?_of_top hframes]
      simp only [react?, stepDriver?, goTo_world, goTo_control, hd, hagenda, hcontrol]
      exact ⟨_, rfl⟩
    | completing =>
      rw [h.ordinary.sound.step?_of_top hframes]
      simp only [react?, goTo_control, hcontrol]
      exact ⟨_, rfl⟩
  | drains hbase hrunning hroot | back hbase hrunning hroot =>
    refine .inl (hgoes (fun _ => by rw [hroot]; exact List.cons_ne_nil _ _)
        fun e phase frames heq => ?_)
    rw [htop hrunning, hroot] at heq
    cases heq
  | inside hbase hrunning hroot hhome herrand =>
    refine .inl (hgoes (fun _ => by rw [hroot]; exact List.cons_ne_nil _ _)
        fun e phase frames heq => ?_)
    rw [top, hrunning, stackUnder] at heq
    exact herrand (.driving e phase) (heq ▸ List.mem_cons_self ..)

end Machine

end Fibers
