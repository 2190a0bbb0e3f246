import Fibers.Proofs.Issuing
import Fibers.Proofs.DriverWarnings
import Fibers.Proofs.Refusals

/-!
What drivers give away arrives. A call that has its outcome, and one who waits for all
calls and whose turn it is, are resumed through the scheduler that the driver feeds. If
the fiber is a task of that scheduler it is parked there and goes on at once; its await
comes back with the outcome and with nothing else. A task of another scheduler is missed:
the driver's clone was the last one of its handle, so it is unwound, the driver warns
once, and the loop goes on.
-/

namespace Fibers

open Asset (cloneOf looseOf postOf)

section Weigh

variable {α : Type} {f g : α → Nat} {items : List α}

theorem weigh_mono (h : ∀ a ∈ items, f a ≤ g a) : weigh f items ≤ weigh g items := by
  induction items with
  | nil => exact Nat.le_refl _
  | cons a rest ih =>
    rw [weigh_cons, weigh_cons]
    exact Nat.add_le_add (h a (List.mem_cons_self ..))
      (ih fun b member => h b (List.mem_cons_of_mem _ member))

theorem weigh_lt {a : α} (h : ∀ a ∈ items, f a ≤ g a) (member : a ∈ items) (hlt : f a < g a) :
    weigh f items < weigh g items := by
  obtain ⟨first, rest, rfl⟩ := List.append_of_mem member
  have hfirst := weigh_mono fun b hb => h b (List.mem_append_left _ hb)
  have hrest := weigh_mono fun b hb => h b (List.mem_append_right _ (List.mem_cons_of_mem _ hb))
  simp only [weigh_append, weigh_cons]
  omega

end Weigh

namespace World

theorem length_awaited (w : World) (x : HandleRef) :
    (w.awaited x).length = w.tally (Mark.awaits x) := by
  rw [awaited, told, tally]
  induction w.history.toList with
  | nil => rfl
  | cons happening rest ih =>
    rw [List.filterMap_cons, weigh_cons, ← ih]
    cases happening with
    | entry | event => simp [Happening.read, Happening.weight]
    | mark told =>
      cases told <;> simp [Happening.read, Happening.weight, Mark.awaited?, Mark.awaits]
      split <;> simp_all [Nat.add_comm]

end World

/-! ### Clones that are kept -/

/-- Counts the clones of a handle that a program may come by, and the awaits that have yet
to come to its resumption. -/
def Asset.claimOf (x : HandleRef) (asset : Asset) : Nat := looseOf x asset + postOf x asset

variable {x : HandleRef} {d : DriverId}

theorem cloneOf_loosen (x : HandleRef) (debris : List Debris) :
    weigh (cloneOf x) (loosen debris) ≤ weigh (Asset.claimOf x) (loosen debris) := by
  rw [loosen, weigh_map, weigh_map]
  refine weigh_mono fun debris _ => ?_
  cases debris <;> simp [cloneOf, Asset.claimOf, looseOf, postOf]

/-- Beside a clone that a frame keeps stands the await that it is kept for, unless drivers
keep it for those who wait. -/
theorem Frame.cloneOf_assets {frame : Frame} (h : ∀ p, frame.driving? = some p → x ∉ p.2.waiters) :
    weigh (cloneOf x) frame.assets ≤ weigh (Asset.claimOf x) frame.assets := by
  have hwaiters : ∀ waiters : List HandleRef, x ∉ waiters →
      weigh (cloneOf x) (waiters.map .kept) = 0 := by
    intro waiters hnot
    rw [weigh_map]
    refine weigh_eq_zero _ fun y member => ?_
    have hne : y ≠ x := fun heq => hnot (heq ▸ member)
    exact if_neg hne
  cases frame with
  | actions todo guards => exact cloneOf_loosen x _
  | registering own plan => simp [Frame.assets, cloneOf, Asset.claimOf, looseOf, postOf]
  | awaiting own plan => simp [Frame.assets, cloneOf]
  | answering s reply => simp [Frame.assets, cloneOf]
  | driving d phase =>
    have hnot := h _ rfl
    cases phase with
    | settle waiters | resuming fiber waiters =>
      exact Nat.le_trans (Nat.le_of_eq (hwaiters _ hnot)) (Nat.zero_le _)
    | drain | listen | poll => exact Nat.zero_le _
  | again | catching | suspending | transferring | dispatching | draining | completing =>
    exact Nat.zero_le _

theorem WaitingStack.not_driving {frames : List Frame} (h : WaitingStack frames) :
    ∀ frame ∈ frames, frame.driving? = none := by
  cases frames with
  | nil => exact h.elim
  | cons first rest =>
    have hplain : ∀ frame ∈ rest, frame.driving? = none := by
      have hrest : PlainStack true rest := by cases first <;> first | exact h | exact h.elim
      intro frame member
      have hframe := hrest frame member
      cases frame <;> first | rfl | cases hframe
    rintro frame (_ | ⟨_, member⟩)
    · cases first <;> first | rfl | exact h.elim
    · exact hplain frame member

theorem Fiber.cloneOf_assets {fiber : Fiber} (h : fiber.AtRest) :
    weigh (cloneOf x) fiber.assets ≤ weigh (Asset.claimOf x) fiber.assets := by
  obtain ⟨serial, id, home, stack, state⟩ := fiber
  cases state with
  | unstarted | finished => exact Nat.le_refl _
  | suspended frames first =>
    have hframes : weigh (cloneOf x) (framesAssets frames) ≤ weigh (Asset.claimOf x)
        (framesAssets frames) := by
      rw [framesAssets, weigh_flatMap, weigh_flatMap]
      refine weigh_mono fun frame member => Frame.cloneOf_assets fun p hp => ?_
      rw [(h frames first rfl).not_driving frame member] at hp
      cases hp
    have hfirst := cloneOf_loosen x first.debris
    simp only [Fiber.assets, FiberState.assets, fiberAssets, Payload.assets, weigh_cons,
      weigh_append, cloneOf]
    omega

/-- A fiber that awaits keeps no clone for that. -/
theorem Fiber.AwaitsOn.cloneOf_assets {fiber : Fiber} (hawaits : fiber.AwaitsOn x)
    (h : fiber.AtRest) : weigh (cloneOf x) fiber.assets < weigh (Asset.claimOf x) fiber.assets := by
  obtain ⟨plan, frames, first, hstate⟩ := hawaits.state_eq
  obtain ⟨serial, id, home, stack, state⟩ := fiber
  cases hstate
  have hframes : weigh (cloneOf x) (framesAssets frames) ≤ weigh (Asset.claimOf x)
      (framesAssets frames) := by
    rw [framesAssets, weigh_flatMap, weigh_flatMap]
    refine weigh_mono fun frame member => Frame.cloneOf_assets fun p hp => ?_
    rw [(h _ first rfl).not_driving frame (List.mem_cons_of_mem _ member)] at hp
    cases hp
  have hfirst := cloneOf_loosen x first.debris
  simp only [Fiber.assets, FiberState.assets, fiberAssets, Payload.assets, framesAssets_cons,
    Frame.assets, weigh_cons, weigh_append, weigh_nil, cloneOf, Asset.claimOf, looseOf, postOf,
      if_true] at hframes hfirst ⊢
  omega

theorem Runnable.cloneOf_assets {entry : Runnable} (s : SchedulerId)
    (h : ∀ fiber resumption, entry = .woken fiber resumption → fiber.AtRest) :
    weigh (cloneOf x) (entry.assets s) ≤ weigh (Asset.claimOf x) (entry.assets s) := by
  cases entry with
  | fresh id body => exact Nat.le_refl _
  | woken fiber resumption =>
    rw [Runnable.assets, weigh_append, weigh_append]
    exact Nat.add_le_add (Fiber.cloneOf_assets (h fiber resumption rfl)) (cloneOf_loosen x _)

theorem HandleCell.cloneOf_assets {cell : HandleCell}
    (h : ∀ fiber owner, cell.slot = .parked fiber owner → fiber.AtRest) :
    weigh (cloneOf x) cell.assets ≤ weigh (Asset.claimOf x) cell.assets := by
  rw [HandleCell.assets]
  split
  · exact cloneOf_loosen x _
  next fiber owner hslot => exact Fiber.cloneOf_assets (h fiber owner hslot)
  · exact Nat.le_refl _

theorem cloneOf_schedulersAssets {n : Nat} {schedulers : List Scheduler}
    (h : ∀ scheduler ∈ schedulers, ∀ fiber resumption, .woken fiber resumption ∈ scheduler.queue →
      fiber.AtRest) :
    weigh (cloneOf x) (schedulersAssets n schedulers) ≤ weigh (Asset.claimOf x)
      (schedulersAssets n schedulers) := by
  induction schedulers generalizing n with
  | nil => exact Nat.le_refl _
  | cons scheduler rest ih =>
    have hentries : weigh (cloneOf x) (scheduler.queue.flatMap (Runnable.assets ⟨n⟩)) ≤
        weigh (Asset.claimOf x) (scheduler.queue.flatMap (Runnable.assets ⟨n⟩)) := by
      rw [weigh_flatMap, weigh_flatMap]
      refine weigh_mono fun entry member => Runnable.cloneOf_assets _ fun fiber resumption heq => ?_
      exact h scheduler (List.mem_cons_self ..) fiber resumption (heq ▸ member)
    have hidle : weigh (cloneOf x) (scheduler.pool.idle.map fun stack => .holds stack (some ⟨n⟩)) =
        0 := by
      rw [weigh_map]
      exact weigh_eq_zero _ fun _ _ => rfl
    have hrest := ih (n := n + 1) fun scheduler member =>
      h scheduler (List.mem_cons_of_mem _ member)
    simp only [schedulersAssets, Scheduler.assets, weigh_append]
    omega


theorem HostCall.eq_of_given {call : HostCall} {key : Nat} (h : call.claim = (key, d, none)) :
    call = ⟨key, d, .handing⟩ := by
  obtain ⟨key', e, state⟩ := call
  cases state with
  | holding => cases h
  | handing =>
    cases h
    rfl

/-- The driver whose delivery the frame waits for. -/
def Frame.server? : Frame → Option DriverId
  | .completing d .. => some d
  | .driving d (.resuming ..) => some d
  | _ => none

namespace Machine

variable {m : Machine} {fiber : Fiber} {owner : Owner}

theorem agendaAssets_of_not_inHand (h : ∀ d, ¬m.InHand d x) :
    weigh (cloneOf x) (agendaAssets m.world.agenda) ≤ weigh (Asset.claimOf x)
      (agendaAssets m.world.agenda) := by
  cases hagenda : m.world.agenda with
  | none => exact Nat.le_refl _
  | some agenda =>
    rw [agendaAssets, weigh_flatMap, weigh_flatMap]
    refine weigh_mono fun call member => ?_
    cases hstate : call.state with
    | holding y work =>
      have hne : y ≠ x := by
        rintro rfl
        have hclaim : (call.key, call.driver, some y) ∈ agenda.calls.map HostCall.claim :=
          List.mem_map.2 ⟨call, member, by rw [HostCall.claim, hstate]⟩
        exact h call.driver (.call (by rw [World.claims, hagenda]; rfl) hclaim)
      have houtcome := cloneOf_loosen x work.ending.debris
      simp only [HostCall.assets, hstate, weigh_cons, cloneOf, if_neg hne]
      exact Nat.le_trans (by rw [Nat.zero_add]; exact houtcome) (Nat.le_add_left _ _)
    | handing => simp [HostCall.assets, hstate]

theorem driversAssets_of_not_inHand (h : ∀ d, ¬m.InHand d x) :
    weigh (fun driver => weigh (cloneOf x) (Driver.assets driver)) m.world.drivers = 0 := by
  refine weigh_eq_zero _ fun driver member => ?_
  obtain ⟨n, hn⟩ := List.getElem?_of_mem member
  rw [Driver.assets, weigh_cons, weigh_map]
  refine Nat.add_eq_zero_iff.2 ⟨rfl, weigh_eq_zero _ fun y hy => ?_⟩
  have hne : y ≠ x := by
    rintro rfl
    refine h ⟨n⟩ (.lined (List.mem_append_right _ ?_))
    rw [World.waiters, World.driver?, hn]
    exact hy
  exact if_neg hne

/-- Besides its programs only drivers keep a handle alive that a parked fiber awaits. -/
theorem Sound.inHand_of_parked {cell : HandleCell} (h : m.Sound True) (hroot : m.running = [])
    (hcontrol : m.control.assets = []) (hcell : m.world.handles.get? x = some cell)
    (hslot : cell.slot = .parked fiber owner) (hawaits : fiber.AwaitsOn x)
    (hhidden : ¬m.world.Shows m.assets x) : ∃ d, m.InHand d x := by
  by_contra hnone
  have hnot : ∀ d, ¬m.InHand d x := fun d hd => hnone ⟨d, hd⟩
  have hassets : m.assets = framesAssets m.root := by
    obtain ⟨world, running, root, control⟩ := m
    cases hroot
    simp only [assets, top, stackUnder, beneath, hcontrol, List.append_nil]
  have horderly := h.kept.orderly
  have hslots : weigh (fun handle => cloneOf x (.loose (.handle handle))) m.world.slots.values ≤
      weigh (fun handle => Asset.claimOf x (.loose (.handle handle))) m.world.slots.values :=
    weigh_mono fun handle _ => Nat.le_add_right _ _
  have hretained : weigh (fun handle => cloneOf x (.loose (.handle handle))) m.world.retained ≤
      weigh (fun handle => Asset.claimOf x (.loose (.handle handle))) m.world.retained :=
    weigh_mono fun handle _ => Nat.le_add_right _ _
  have hnamed : weigh (fun fiber => weigh (cloneOf x) (Fiber.assets fiber))
      m.world.coroutines.values ≤
      weigh (fun fiber => weigh (Asset.claimOf x) (Fiber.assets fiber)) m.world.coroutines.values :=
    weigh_mono fun fiber member => Fiber.cloneOf_assets (horderly.named fiber member).atRest
  have hcells : m.world.handles.worth (cloneOf x) < m.world.handles.worth (Asset.claimOf x) := by
    refine weigh_lt (a := cell)
      (fun cell member => HandleCell.cloneOf_assets fun fiber owner hslot => ?_)
      (List.mem_of_getElem? hcell) ?_
    · obtain ⟨n, hn⟩ := List.getElem?_of_mem member
      exact (horderly.parked ⟨n⟩ cell fiber owner hn hslot).1.atRest
    · rw [HandleCell.assets, hslot]
      exact hawaits.cloneOf_assets (horderly.parked x cell fiber owner hcell hslot).1.atRest
  have hqueued : weigh (cloneOf x) (schedulersAssets 0 m.world.schedulers) ≤
      weigh (Asset.claimOf x) (schedulersAssets 0 m.world.schedulers) := by
    refine cloneOf_schedulersAssets fun scheduler member fiber resumption hqueued => ?_
    obtain ⟨n, hn⟩ := List.getElem?_of_mem member
    refine (horderly.queued ⟨n⟩ fiber resumption ?_).atRest
    rw [World.queue, World.scheduler?, hn]
    exact hqueued
  have hagenda := agendaAssets_of_not_inHand hnot
  have hdrivers := driversAssets_of_not_inHand hnot
  have hpositions : weigh (fun position => weigh (cloneOf x) (Position.assets position))
      m.world.positions = 0 :=
    weigh_eq_zero _ fun position _ => by
      rw [Position.assets, weigh_map]
      exact weigh_eq_zero _ fun _ _ => rfl
  have hframes : weigh (cloneOf x) (framesAssets m.root) ≤ weigh (Asset.claimOf x)
      (framesAssets m.root) := by
    rw [framesAssets, weigh_flatMap, weigh_flatMap]
    refine weigh_mono fun frame member => Frame.cloneOf_assets fun p hp hwaits =>
      hnot p.1 (.lined ?_)
    exact List.mem_append_left _ (mem_due.2 ⟨p.2, List.mem_filterMap.2 ⟨frame, member, hp⟩, hwaits⟩)
  have hparts : m.world.worth (Asset.claimOf x) = m.world.worth (looseOf x) +
      m.world.worth (postOf x) :=
    m.world.worth_add _ _
  have hparts' : weigh (Asset.claimOf x) (framesAssets m.root) =
      weigh (looseOf x) (framesAssets m.root) + weigh (postOf x) (framesAssets m.root) :=
        weigh_add _ _ _
  have hposts := h.posts_le x
  have hclones := h.kept.balanced.clones x
  have halive : 0 < m.world.handles.clones x := by
    rw [← h.holders_eq]
    exact h.holders_of_parked hcell hslot
  rw [World.Shows, hassets] at hhidden
  rw [hassets] at hposts hclones
  unfold World.worth at hparts hposts hclones hhidden
  omega

/-! ### Giving a handle away -/

/-- In this step the driver gives away the handle of a fiber that waits for it: a call has
its outcome and lets go of the handle, or it is the turn of one who waits for all calls.
Besides what the fiber is to be resumed with, it says what is warned of if that fails. -/
inductive GivesAway (m : Machine) (d : DriverId) (x : HandleRef) : Resumption → (String → Event) →
    Machine → Prop
  | call {e : DriverId} {turns key : Nat} {work : Work} {outcome : Resumption} {frames : List Frame}
      {agenda agenda' : Agenda} {m' : Machine}
      (htop : m.top = .driving e (.poll (turns + 1)) :: frames)
      (hagenda : m.world.agenda = some agenda) (hcall : ⟨key, d, .holding x work⟩ ∈ agenda.calls)
      (hending : work.ending = .done outcome) (hstep : m.step? = some m')
      (hagenda' : m'.world.agenda = some agenda') (hhanding : ⟨key, d, .handing⟩ ∈ agenda'.calls) :
      GivesAway m d x outcome (.callLost (m.world.handleId x)) m'
  | waiter {waiters : List HandleRef} {frames : List Frame} {m' : Machine}
      (htop : m.top = .driving d (.settle (x :: waiters)) :: frames) (hstep : m.step? = some m') :
      GivesAway m d x .unit (.waiterLost (m.world.handleId x)) m'

theorem GivesAway.step {outcome : Resumption} {lost : String → Event} {m' : Machine}
    (h : m.GivesAway d x outcome lost m') : m.step? = some m' := by
  cases h <;> assumption

/-- Stacks on which a driver hears what became of a delivery: what it warns of if the
delivery was refused, and the stack of its loop after that. -/
inductive Hears (d : DriverId) : List Frame → (String → Event) → List Frame → Prop
  | call (e : DriverId) (turns key : Nat) (fiber : FiberId) (frames : List Frame) :
      Hears d (.completing d key fiber :: .driving e (.poll turns) :: frames) (.callLost fiber)
        (.driving e (.poll turns) :: frames)
  | waiter (fiber : FiberId) (waiters : List HandleRef) (frames : List Frame) :
      Hears d (.driving d (.resuming fiber waiters) :: frames) (.waiterLost fiber)
        (.driving d (.settle waiters) :: frames)

variable {m' : Machine} {outcome : Resumption} {lost : String → Event} {stack loop : List Frame}
  {t : SchedulerId} {w : World}

/-- What the driver does when it gives a handle away. -/
structure Hands (m : Machine) (d : DriverId) (x : HandleRef) (outcome : Resumption)
    (t : SchedulerId) (stack : List Frame) (w : World) (m' : Machine) : Prop where
  held : m.InHand d x
  advances : m.control = .advance
  outside : m.running = []
  fed : m.world.fedBy d = some t
  noArrivals : m.world.NoArrivals w
  alive : 0 < w.handles.clones x
  deliversTo : DeliversTo m stack w t x outcome
  eq : m' = (m.goTo stack w .advance).deliver t x outcome

/-- The driver of a loop that takes a step is there, and so is the work of its run. -/
theorem fedBy_of_step (hm : m.Sound True) {phase : DriverPhase} {frames : List Frame}
    (htop : m.top = .driving d phase :: frames) (hstep : m.step? = some m') :
    (∃ t, m.world.fedBy d = some t) ∧ m.world.agenda.isSome := by
  rw [hm.step?_of_top htop] at hstep
  simp only [react?, stepDriver?, goTo_world] at hstep
  split at hstep
  next driver agenda hd hagenda => exact ⟨⟨_, by rw [World.fedBy, hd]; rfl⟩, by rw [hagenda]; rfl⟩
  next => cases hstep

theorem handleId_of_noArrivals (h : m.world.NoArrivals w) : w.handleId x = m.world.handleId x := by
  have hsameOrGone := h.cells x
  rw [World.handleId, World.handleId]
  generalize m.world.handles.get? x = old, w.handles.get? x = new at hsameOrGone
  cases hsameOrGone <;> rfl

/-- The turn of a call that comes to its end: what the call holds, and the world once it
has what it waits for. -/
structure Finishes (m : Machine) (call : HostCall) (y : HandleRef) (work : Work) (agenda : Agenda)
    (w : World) : Prop where
  advances : m.control = .advance
  shift : m.world.Shift [] w []
  called : w.agenda = some agenda
  member : call ∈ agenda.calls
  holds : call.state = .holding y work

/-- In a step of a loop in which ready calls have their turns a call hands its outcome over,
or its future panics, or all calls keep what they have. -/
theorem Sound.polls (hm : m.Sound True) {e : DriverId} {turns : Nat} {frames : List Frame}
    (htop : m.top = .driving e (.poll (turns + 1)) :: frames) (hstep : m.step? = some m') :
    m'.world.claims = m.world.claims ∨
    ∃ (call : HostCall) (y : HandleRef) (work : Work) (agenda : Agenda) (w : World),
      m.Finishes call y work agenda w ∧
        ((∃ driver outcome, work.ending = .done outcome ∧ w.driver? call.driver = some driver ∧
          m' = (m.goTo
              (.completing call.driver call.key (w.handleId y) :: .driving e
              (.poll turns) :: frames)
            { w with agenda := some (agenda.setState call.key .handing) } .advance).deliver
              driver.scheduler y outcome) ∨
        work.ending = .panicked ∧
          m' = m.goTo (.completing call.driver call.key (w.handleId y) :: .driving e
            (.poll turns) :: frames)
            (World.release
              { w with agenda := some (agenda.setState call.key .handing) } [.handle y])
              (.answer (.ok 0))) := by
  have hmoves : Moves (fun _ => True) m m' := step_moves hstep hm fun _ _ => trivial
  cases hmoves with
  | goesOn htop' hphase hshift =>
    exact .inl (hshift _ (hm.kept_of_top htop').balanced).drift.claims
  | completes htop' hcontrol hshift hagenda hcall hstate hending hd =>
    rw [htop] at htop'
    cases htop'
    exact .inr ⟨_, _, _, _, _, ⟨hcontrol, hshift, hagenda, hcall, hstate⟩,
      .inl ⟨_, _, hending, hd, rfl⟩⟩
  | breaks htop' hcontrol hshift hagenda hcall hstate hending =>
    rw [htop] at htop'
    cases htop'
    exact .inr ⟨_, _, _, _, _, ⟨hcontrol, hshift, hagenda, hcall, hstate⟩, .inr ⟨hending, rfl⟩⟩
  | idle pushed w control htop' hlight =>
    rw [htop] at htop'
    cases htop'
    exact hlight.elim
  | acts htop' | registered htop' | concludes htop' | transferred htop' | receives htop'
  | drains htop' | asksAgain htop'
    | hears htop' | settles htop' | ends htop' | resumes htop' | completed htop' | leaves _ htop' =>
    rw [htop] at htop'
    cases htop'

/-- The call holds the handle until then. -/
theorem Finishes.claim {call : HostCall} {work : Work} {agenda : Agenda}
    (h : m.Finishes call x work agenda w) (hm : m.Sound True) :
      m.world.claims = some (agenda.calls.map HostCall.claim) ∧
      (call.key, call.driver, some x) ∈ agenda.calls.map HostCall.claim := by
  refine ⟨?_, List.mem_map.2 ⟨call, h.member, by rw [HostCall.claim, h.holds]⟩⟩
  rw [← (h.shift _ hm.kept.balanced).drift.claims, World.claims, h.called]
  rfl

/-- It has kept until then what its future ends with. -/
theorem Finishes.promise {call : HostCall} {work : Work} {agenda : Agenda}
    (h : m.Finishes call x work agenda w) (hm : m.Sound True) :
    (call.key, some (x, work.ending)) ∈ m.world.promises := by
  rw [← (h.shift _ hm.kept.balanced).drift.promises, World.promises, h.called]
  exact List.mem_map.2 ⟨call, h.member, by rw [HostCall.promise, h.holds]⟩

/-- A call that hands its outcome over. -/
theorem Finishes.hands {e : DriverId} {driver : Driver} {turns : Nat} {call : HostCall}
    {work : Work} {agenda : Agenda} {frames : List Frame} (h : m.Finishes call x work agenda w)
    (hm : m.Sound True) (htop : m.top = .driving e (.poll (turns + 1)) :: frames)
    (hending : work.ending = .done outcome) (hd : w.driver? call.driver = some driver) :
    m.Hands call.driver x outcome driver.scheduler
      (.completing call.driver call.key (w.handleId x) :: .driving e (.poll turns) :: frames)
      { w with agenda := some (agenda.setState call.key .handing) }
      ((m.goTo (.completing call.driver call.key (w.handleId x) :: .driving e
          (.poll turns) :: frames)
        { w with agenda := some (agenda.setState call.key .handing) } .advance).deliver
        driver.scheduler x outcome) := by
  obtain ⟨hcontrol, hshift, hagenda, hcall, hstate⟩ := id h
  have hdrift := (hshift _ hm.kept.balanced).drift
  obtain ⟨hclaims, hclaim⟩ := h.claim hm
  have hfed : m.world.fedBy call.driver = some driver.scheduler := by
    rw [← hdrift.fedBy, World.fedBy, hd]
    rfl
  have hkept := (hm.kept.gain hshift).handOver hagenda hcall hstate
  rw [hending] at hkept
  obtain ⟨cell, hcell, halive⟩ := hkept.balanced.clones_pos (x := x) (by
    simp only [weigh_cons, cloneOf, if_true]
    omega)
  refine ⟨.call hclaims hclaim, hcontrol, Sound.running_of_driving hm htop, hfed,
    hdrift.noArrivals.trans (.of_same rfl rfl rfl rfl), ?_, .call hclaims hclaim ?_ hfed, rfl⟩
  · rw [HandleTable.clones, hcell]
    exact halive
  · exact congrArg some (claims_setState agenda call.key)

/-- A driver that turns to one who waits for all calls. -/
theorem Sound.hands_of_resumes (hm : m.Sound True) {driver : Driver} {waiters : List HandleRef}
    {frames : List Frame} (htop : m.top = .driving d (.settle (x :: waiters)) :: frames)
    (hcontrol : m.control = .advance) (hd : m.world.driver? d = some driver) :
    m.Hands d x .unit driver.scheduler
      (.driving d (.resuming (m.world.handleId x) waiters) :: frames) m.world
      ((m.goTo (.driving d (.resuming (m.world.handleId x) waiters) :: frames) m.world
        .advance).deliver driver.scheduler x .unit) := by
  have houtside := Sound.running_of_driving hm htop
  have hphase : (d, .settle (x :: waiters)) ∈ m.phases := by
    rw [phases_of_root (by rw [inFiber, houtside]; rfl), htop]
    exact List.mem_cons_self ..
  have hfed : m.world.fedBy d = some driver.scheduler := by
    rw [World.fedBy, hd]
    rfl
  have hheld : m.InHand d x :=
    .lined (List.mem_append_left _ (mem_due.2 ⟨_, hphase, List.mem_cons_self ..⟩))
  exact ⟨hheld, hcontrol, houtside, hfed, .refl _, hm.clones_of_inHand hheld,
    .driver htop hfed rfl rfl rfl, rfl⟩

/-- The calls of a loop that has handed over what a call had. -/
theorem Hands.claims (h : m.Hands d x outcome t stack w m')
    (hparks : ∃ cell, w.handles.get? x = some cell) : m'.world.claims = w.claims := by
  obtain ⟨cell, hcell⟩ := hparks
  have hdelivers := (m.goTo stack w .advance).delivers t hcell outcome
  rw [← h.eq] at hdelivers
  exact (SameLoops.deliver hdelivers).hosts.claims

/-- Only the call that gives its handle up loses the claim to it. -/
theorem Sound.key_of_givenUp (hm : m.Sound True) {claims : List (Nat × DriverId × Option HandleRef)}
    {key key' : Nat} (hclaims : m.world.claims = some claims) (hclaim : (key, d, some x) ∈ claims)
    (hgiven : (key, d, none) ∈ claims.map (givenUp key')) : key' = key := by
  obtain ⟨old, hold, heq⟩ := List.mem_map.1 hgiven
  rw [givenUp] at heq
  split at heq
  next hkey =>
    cases heq
    exact hkey.symm
  next =>
    subst heq
    cases hm.claim_eq hclaims hold hclaim

/-- What a call comes to its end with is what it kept before its turn. -/
theorem Finishes.ending {call : HostCall} {work work' : Work} {agenda agenda' : Agenda}
    (h : m.Finishes call x work agenda w) (hm : m.Sound True)
    (hagenda : m.world.agenda = some agenda')
    (hcall : ⟨call.key, d, .holding x work'⟩ ∈ agenda'.calls) : work.ending = work'.ending := by
  have hpromise : (call.key, some (x, work'.ending)) ∈ m.world.promises := by
    rw [World.promises, hagenda]
    exact List.mem_map.2 ⟨_, hcall, rfl⟩
  exact congrArg Prod.snd (Option.some.inj (hm.promise_eq (h.promise hm) hpromise))

theorem GivesAway.hands (h : m.GivesAway d x outcome lost m') (hm : m.Sound True) :
    ∃ t stack loop w, m.Hands d x outcome t stack w m' ∧ Hears d stack lost loop ∧
      ∃ e phase frames, m.top = .driving e phase :: frames ∧
        ∃ phase', loop = .driving e phase' :: frames := by
  cases h with
  | @call e turns key work _ frames agenda agenda' _ htop hagenda hcall hending hstep
    hagenda' hhanding =>
    have hclaims : m.world.claims = some (agenda.calls.map HostCall.claim) := by
      rw [World.claims, hagenda]; rfl
    have hclaim : (key, d, some x) ∈ agenda.calls.map HostCall.claim :=
      List.mem_map.2 ⟨_, hcall, rfl⟩
    have hclaims' : m'.world.claims = some (agenda'.calls.map HostCall.claim) := by
      rw [World.claims, hagenda']; rfl
    have hgiven : (key, d, none) ∈ agenda'.calls.map HostCall.claim :=
      List.mem_map.2 ⟨_, hhanding, rfl⟩
    rcases hm.polls htop hstep with hsame | ⟨call, y, work', agenda₁, w, hfinishes, hends⟩
    · rw [hclaims', hclaims, Option.some.injEq] at hsame
      cases hm.claim_eq hclaims (hsame ▸ hgiven) hclaim
    -- The call that comes to its end is the one that let go of its handle.
    have hafter : m'.world.claims =
        some ((agenda₁.setState call.key .handing).calls.map HostCall.claim) := by
      rcases hends with ⟨driver, outcome', hending', hd, rfl⟩ | ⟨-, rfl⟩
      · have hhands := hfinishes.hands hm htop hending' hd
        exact hhands.claims (World.exists_cell hhands.alive)
      · exact (World.sameHosts_release _ _).claims
    have hsame : agenda₁.calls.map HostCall.claim = agenda.calls.map HostCall.claim :=
      Option.some.inj ((hfinishes.claim hm).1.symm.trans hclaims)
    rw [hclaims', claims_setState, hsame, Option.some.injEq] at hafter
    have hkey : call.key = key := hm.key_of_givenUp hclaims hclaim (hafter ▸ hgiven)
    subst hkey
    cases hm.claim_eq hclaims hclaim (hsame ▸ (hfinishes.claim hm).2)
    have hsameEnding : work'.ending = work.ending := hfinishes.ending hm hagenda hcall
    rcases hends with ⟨driver, outcome', hending', hd, rfl⟩ | ⟨hbroken, -⟩
    · cases hending'.symm.trans (hsameEnding.trans hending)
      have hhands := hfinishes.hands hm htop hending' hd
      rw [← handleId_of_noArrivals (hfinishes.shift _ hm.kept.balanced).drift.noArrivals]
      exact ⟨_, _, _, _, hhands, .call .., e, _, frames, htop, _, rfl⟩
    · rw [hsameEnding, hending] at hbroken
      cases hbroken
  | @waiter waiters frames _ htop hstep =>
    have hmoves : Moves (fun _ => True) m m' := step_moves hstep hm fun _ _ => trivial
    cases hmoves with
    | resumes htop' hcontrol hd =>
      rw [htop] at htop'
      cases htop'
      exact ⟨_, _, _, _, hm.hands_of_resumes htop hcontrol hd, .waiter .., d, _,
        frames, htop, _, rfl⟩
    | goesOn htop' hphase =>
      rw [htop] at htop'
      cases htop'
      cases hphase
    | idle pushed w control htop' hlight =>
      rw [htop] at htop'
      cases htop'
      exact hlight.elim
    | acts htop' | registered htop' | concludes htop' | transferred htop' | receives htop'
    | drains htop' | asksAgain htop'
      | hears htop' | settles htop' | ends htop' | completes htop' | breaks htop' | completed htop'
      | leaves _ htop' =>
      rw [htop] at htop'
      cases htop'

/-! ### Answers -/

theorem run_answer {max : Option Nat} {result : Except SchedulerFault Nat}
    (h : (m.run t max).control = .answer result) : (m.run t max).top = m.top := by
  rw [run] at h ⊢
  split at h
  · rw [withControl_eq, goTo_top]
  · cases h

theorem deliver_answer {result : Except SchedulerFault Nat}
    (h : (m.deliver t x outcome).control = .answer result) :
    (m.deliver t x outcome).top = m.top := by
  rw [deliver] at h ⊢
  simp only at h ⊢
  split at h
  · rw [withWorld_eq, goTo_withControl, goTo_top]
  · rw [withWorld_eq, goTo_withControl, goTo_top]
  · split at h
    next hcurrent => rw [if_pos hcurrent, withWorld_eq, goTo_withControl, goTo_top]
    next => exact absurd h (enter_control _ _ _ _)

theorem suspend_answer {result : Except SchedulerFault Nat} (h : m.control ≠ .answer result) :
    (m.suspend x).control ≠ .answer result := by
  rw [suspend]
  split
  · exact h
  · rintro ⟨⟩

theorem suspendAwait_answer {plan : AwaitPlan} {result : Except SchedulerFault Nat}
    (h : m.control ≠ .answer result) : (m.suspendAwait x plan).control ≠ .answer result := by
  rw [suspendAwait, push_eq]
  exact suspend_answer h

theorem Does.not_refused {allowed : Action → Prop} {frame : Frame} {frames : List Frame}
    {fault : SchedulerFault} (h : Does allowed m m') (htop : m'.top = frame :: frames) :
    ¬frame.Loses m'.control fault := by
  rintro ⟨hanswer, hframe⟩
  cases h with
  | idle pushed w control hpushed hcode =>
    rw [goTo_control] at hanswer
    rw [hanswer] at hcode
    exact hcode
  | asks max reply =>
    rw [run_answer hanswer, goTo_top] at htop
    cases htop
    exact hframe
  | delivers reply =>
    rw [deliver_answer hanswer, goTo_top] at htop
    cases htop
    exact hframe
  | enqueues | awaits | strands | drives | drivers | makes => cases hanswer
  | issues | waits => exact suspendAwait_answer (fun heq => by cases heq) hanswer
  | suspends => exact suspend_answer (fun heq => by cases heq) hanswer
  | parks =>
    rw [(parkedByHand_homes ..).2] at hanswer
    cases hanswer
  | wakes =>
    rw [(wokenByHand_homes ..).2] at hanswer
    cases hanswer
  | transfers => exact enter_control _ _ _ _ hanswer

/-- Only what a driver gives away is refused so that the driver warns. -/
theorem Sound.hands_of_refused {frame : Frame} {frames : List Frame} {fault : SchedulerFault}
    (hm : m.Sound True) (hstep : m.step? = some m') (htop : m'.top = frame :: frames)
    (hloses : frame.Loses m'.control fault) :
    ∃ d x outcome t stack w, frame.server? = some d ∧ m.Hands d x outcome t stack w m' := by
  obtain ⟨hanswer, hframe⟩ := hloses
  have hmoves : Moves (fun _ => True) m m' := step_moves hstep hm fun _ _ => trivial
  cases hmoves with
  | acts _ _ hdoes => exact absurd ⟨hanswer, hframe⟩ (hdoes.not_refused htop)
  | idle pushed w control _ _ _ hcode =>
    rw [goTo_control] at hanswer
    rw [hanswer] at hcode
    exact hcode.elim
  | registered _ hcode =>
    refine absurd hanswer (suspendAwait_answer fun heq => ?_)
    rw [goTo_control] at heq
    rw [heq] at hcode
    exact hcode
  | @concludes y plan rest resumption _ _ =>
    obtain ⟨w, control, heq, hcode, -⟩ :=
      concludeAwait_eq (m.goTo rest m.world m.control) y plan resumption
    rw [heq, goTo_control] at hanswer
    rw [hanswer] at hcode
    exact hcode.elim
  | @transferred name slot fiber exit rest htop' hback =>
    cases exit <;> cases hanswer
  | drains htop' hcontrol =>
    generalize hdrained : (m.goTo _ m.world .advance).drain _ _ _ = after at hanswer
    have hdrains := hdrained ▸ Machine.drains ..
    cases hdrains with
    | stops | fails => cases hanswer
    | starts | wakes => exact absurd hanswer (enter_control _ _ _ _)
  | asksAgain htop' hcontrol hd =>
    rw [run_answer hanswer, goTo_top] at htop
    cases htop
    exact hframe.elim
  | resumes htop' hcontrol hd =>
    have hhands := hm.hands_of_resumes htop' hcontrol hd
    rw [deliver_answer hanswer, goTo_top] at htop
    cases htop
    exact ⟨_, _, _, _, _, _, rfl, hhands⟩
  | completes htop' hcontrol hshift hagenda hcall hstate hending hd =>
    have hfinishes : m.Finishes _ _ _ _ _ := ⟨hcontrol, hshift, hagenda, hcall, hstate⟩
    have hhands := hfinishes.hands hm htop' hending hd
    rw [deliver_answer hanswer, goTo_top] at htop
    cases htop
    exact ⟨_, _, _, _, _, _, rfl, hhands⟩
  | @completed e key fiber result rest htop' hcontrol =>
    obtain ⟨w, heq, -⟩ := completed_eq (m.goTo rest m.world m.control) e key fiber result
    rw [heq] at hanswer
    cases hanswer
  | leaves | receives | goesOn | hears | settles | ends | breaks => cases hanswer

/-! ### Whoever waits is reached -/

variable {s : SchedulerId} {kin : World → SchedulerId → Prop} {about : AwaitKind → Bool}

/-- The fiber is parked on behalf of its own scheduler, and awaits the handle. -/
structure ParksFor (m : Machine) (x : HandleRef) (fiber : Fiber) (s : SchedulerId) : Prop where
  parked : ∃ cell, m.world.handles.get? x = some cell ∧ cell.slot = .parked fiber (.scheduler s)
  awaits : fiber.AwaitsOn x
  home : fiber.home = some s

theorem Attends.parksFor (h : m.Attends kin about d) (hx : m.Held about d x)
    (hadvance : m.control = .advance) : ∃ fiber s, m.ParksFor x fiber s ∧ kin m.world s := by
  cases h.expects hx with
  | @parked cell s fiber hcell hslot hawaits hhome hkin =>
    exact ⟨fiber, s, ⟨⟨cell, hcell, hslot⟩, hawaits, hhome⟩, hkin⟩
  | comes hcell hslot hcontrol =>
    rw [hadvance] at hcontrol
    cases hcontrol

theorem Hands.cell (h : m.Hands d x outcome t stack w m') (hparks : m.ParksFor x fiber s) :
    ∃ cell, w.handles.get? x = some cell ∧ cell.slot = .parked fiber (.scheduler s) := by
  obtain ⟨cell, hcell, hslot⟩ := hparks.parked
  obtain ⟨after, hafter, hsame⟩ := (h.noArrivals.cells x).slot_eq hcell h.alive
  exact ⟨after, hafter, hsame.trans hslot⟩

/-- What is delivered through the scheduler of the fiber comes to it. -/
theorem Hands.enters (h : m.Hands d x outcome s stack w m') (hm : m.Sound True)
    (hparks : m.ParksFor x fiber s) : m'.Inside fiber ∧ m'.control = .resumed outcome := by
  obtain ⟨cell, hcell, hslot⟩ := h.cell hparks
  have hcurrent : w.current = none := by
    rw [h.noArrivals.current, hm.current, h.outside]
    rfl
  have hdelivers := (m.goTo stack w .advance).delivers s hcell outcome
  rw [← h.eq] at hdelivers
  obtain ⟨plan, frames, first, hstate⟩ := hparks.awaits.state_eq
  cases hdelivers with
  | stored event hpending => rw [hslot] at hpending; cases hpending
  | queued other event hother hsome =>
    rw [goTo_world, hcurrent] at hsome
    cases hsome
  | dispatched other event hother =>
    rw [hslot] at hother
    cases hother
    rw [enter_suspended hstate]
    refine ⟨⟨_, _, rfl, ?_⟩, rfl⟩
    obtain ⟨serial, id, home, stack, state⟩ := fiber
    cases hstate
    rfl
  | refused fault event hpending hother => exact absurd hslot (hother fiber)

/-- What is delivered through another scheduler is refused. -/
theorem Hands.refused (h : m.Hands d x outcome t stack w m') (hparks : m.ParksFor x fiber s)
    (hne : s ≠ t) :
    ∃ id w', m' = m.goTo stack w' (.answer (.error (.foreignHandle id))) ∧
      m.world.NoArrivals w' := by
  obtain ⟨cell, hcell, hslot⟩ := h.cell hparks
  have hdelivered := deliver_foreign (n := m.goTo stack w .advance) hcell hslot
    (fun heq => hne (Owner.scheduler.inj heq)) outcome
  rw [← h.eq, goTo_goTo, goTo_top, goTo_world] at hdelivered
  exact ⟨cell.id, _, hdelivered, (h.noArrivals.trans (World.noArrivals_release _ _)).trans
    (.tell _ (Event.isQuiet_rejected _ _).1)⟩

/-- Who is not reached is unwound: his clone of the handle was the driver's. -/
theorem Hands.unwinds (h : m.Hands d x outcome t stack w m') (hm : m.Sound True)
    (hattended : m.world.Attended) (ha : m.Attends kin about d) (hx : m.Held about d x)
    (hhosted : m.Hosted) (hdistinct : m.Distinct) (hstep : m.step? = some m')
    (hparks : m.ParksFor x fiber s) (hne : s ≠ t) : m.world.Unwinds fiber m'.world := by
  obtain ⟨id, w', heq, hnoArrivals⟩ := h.refused hparks hne
  obtain ⟨cell, hcell, hslot⟩ := hparks.parked
  have hm' : m'.Sound True := hm.follows (.steps hstep)
  have hmoves : Moves (fun _ => True) m m' := step_moves hstep hm fun _ _ => trivial
  have hsame : m'.world.accepted x = m.world.accepted x := by
    rw [heq, goTo_world]
    exact hnoArrivals.accepted x
  have hsuspended := (hm.kept.orderly.parked x cell fiber _ hcell hslot).1.suspended rfl
  obtain ⟨-, hiff, hstays⟩ :=
    (hm.fates hattended (.steps hstep)).parked hcell hslot hsuspended hsame
  refine hiff.2 (Nat.eq_zero_of_not_pos fun hheld => ?_)
  obtain ⟨after, hafter, hparked⟩ := hstays hheld
  obtain ⟨plan, hopened, hdriver⟩ := hhosted.opened h.held
  have hsecures := (ha.secret hx).moves (fun _ _ _ _ => trivial)
    (fun _ name slot frames other y htop hback heq => by rw [h.advances] at hback; cases hback)
    hmoves
  have hhidden : ¬m'.world.Shows m'.assets x := hsecures.kept.hidden x (fun hne => hne rfl)
    (World.hosts_pos ((hm.turns hmoves).opened hm hopened) (isHosted_of_driver? hdriver))
  have hroot : m'.running = [] := by
    have houtside := h.outside
    rw [heq]
    obtain ⟨world, running, root, control⟩ := m
    cases houtside
    rfl
  obtain ⟨e, he⟩ :=
    hm'.inHand_of_parked hroot (by rw [heq]; rfl) hafter hparked hparks.awaits hhidden
  have hdelivers := (m.goTo stack w .advance).delivers t (h.cell hparks).choose_spec.1 outcome
  rw [← h.eq] at hdelivers
  refine (h.deliversTo.shows_or hdelivers hm hhosted hdistinct (hm.works hmoves) e).elim
    (fun hshown => ?_) fun hgone => hgone he
  exact ha.not_shows hhosted hx hshown

theorem isSome_driver? {e : DriverId} (hfed : ∃ t, m.world.fedBy e = some t) :
    (m.world.driver? e).isSome := by
  obtain ⟨t, ht⟩ := hfed
  rw [World.fedBy, Option.map_eq_some_iff] at ht
  obtain ⟨driver, hdriver, -⟩ := ht
  rw [hdriver]
  rfl

/-- A driver that hears of a refusal warns of it, and its loop has the turn again. -/
theorem Hears.warns (h : Hears d stack lost loop) (hm : m.Sound True) {fault : SchedulerFault}
    (htop : m.top = stack) (hcontrol : m.control = .answer (.error fault))
    (hfed : ∃ t, m.world.fedBy d = some t) (hagenda : m.world.agenda.isSome) :
    ∃ next, m.step? = some next ∧ next.top = loop ∧ next.control = .advance ∧
      next.world.history = (m.world.tell (lost fault.message)).history := by
  cases h with
  | call e turns key fiber frames =>
    refine ⟨_, step_of_callLost hm htop hcontrol, ?_, rfl, rfl⟩
    rw [goTo_top]
  | waiter fiber waiters frames =>
    refine ⟨_, step_of_waiterLost hm htop hcontrol (isSome_driver? hfed) hagenda, ?_, rfl, rfl⟩
    rw [goTo_top]

/-- A loop that has the turn again goes on. -/
theorem Hears.goes_on (h : Hears d stack lost loop) (hm : m.Sound True) {e : DriverId}
    {phase : DriverPhase} {frames : List Frame} (hloop : loop = .driving e phase :: frames)
    (htop : m.top = loop) (hcontrol : m.control = .advance) (hfed : ∃ t, m.world.fedBy e = some t)
    (hagenda : m.world.agenda.isSome) : ∃ later, m.step? = some later := by
  obtain ⟨driver, hdriver⟩ := Option.isSome_iff_exists.1 (isSome_driver? hfed)
  obtain ⟨agenda, hagenda⟩ := Option.isSome_iff_exists.1 hagenda
  rw [hloop] at htop
  rw [hm.step?_of_top htop]
  cases h with
  | call e' turns key fiber frames' =>
    cases hloop
    simp only [react?, stepDriver?, goTo_world, goTo_control, hdriver, hagenda, hcontrol]
    exact ⟨_, rfl⟩
  | waiter fiber waiters frames' =>
    cases hloop
    cases waiters <;>
      simp only [react?, stepDriver?, goTo_world, goTo_control, hdriver, hagenda, hcontrol] <;>
      exact ⟨_, rfl⟩

theorem Hears.isLoss (h : Hears d stack lost loop) (message : String) :
    (lost message).isLoss = true := by
  cases h with
  | call => exact Event.isLoss_callLost ..
  | waiter => exact Event.isLoss_waiterLost ..

/-! ### What is handed over, and once -/

theorem Sound.awaited_le (hm : m.Sound True) (x : HandleRef) : (m.world.awaited x).length ≤ 1 := by
  have hposts := hm.kept.balanced.posts x
  have hopened := hm.kept.balanced.opened x
  rw [World.length_awaited]
  split at hopened <;> omega

/-- The await that control comes back to was handed nothing before. -/
theorem Sound.awaited_nil (hm : m.Sound True) {plan : AwaitPlan} {frames : List Frame}
    (htop : m.top = .awaiting x plan :: frames) : m.world.awaited x = [] := by
  have hposts := hm.kept.balanced.posts x
  have hopened := hm.kept.balanced.opened x
  have hpost : 0 < weigh (postOf x) m.assets := by
    simp only [assets, htop, framesAssets_cons, Frame.assets, weigh_append, weigh_cons,
      postOf, if_true]
    omega
  have hlength := m.world.length_awaited x
  refine List.length_eq_zero_iff.1 ?_
  split at hopened <;> omega

/-- Where a fiber is resumed that awaits, its await returns what the fiber was resumed with,
and is never handed anything else. -/
theorem Sound.returns_once (hm : m.Sound True) {plan : AwaitPlan} {frames : List Frame}
    (htop : m.top = .awaiting x plan :: frames) (hresumed : m.control = .resumed outcome) :
    ∃ w control, m.step? = some (m.goTo frames w control) ∧
      plan.Returns (m.world.mark (.awaited x outcome)) outcome w control ∧
      ∀ {n}, Leads (fun _ => True) (m.goTo frames w control) n → n.world.awaited x = [outcome] := by
  obtain ⟨w, control, hstep, hreturns, hone⟩ :=
    step_of_resumed hm htop hresumed (hm.awaited_nil htop)
  refine ⟨w, control, hstep, hreturns, fun {n} hleads => ?_⟩
  have hafter : Sound True (m.goTo frames w control) := hm.follows (.steps hstep)
  obtain ⟨news, hnews⟩ := hleads.remembers hafter
  have hle := (hafter.leads hleads fun _ _ _ _ => trivial : n.Sound True).awaited_le x
  have hlater : n.world.awaited x = [outcome] ++ news.filterMap
      (Happening.read (Mark.awaited? x)) := by
    rw [World.awaited, World.told, ← hnews, List.filterMap_append, goTo_world]
    exact congrArg (· ++ _) hone
  rw [hlater, List.length_append] at hle
  rw [hlater, List.length_eq_zero_iff.1 (Nat.le_zero.1 (Nat.le_of_add_le_add_left hle)),
    List.append_nil]

/-- The fiber is resumed with what was given away for it, and nobody warns. Its await returns
that, and is handed nothing else, neither before nor later. -/
structure Arrives (m : Machine) (x : HandleRef) (fiber : Fiber) (outcome : Resumption)
    (m' : Machine) : Prop where
  inside : m'.Inside fiber
  resumed : m'.control = .resumed outcome
  silent : m'.world.losses = m.world.losses
  unhanded : m'.world.awaited x = []
  once : ∃ plan frames w control, m'.top = .awaiting x plan :: frames ∧
    m'.step? = some (m'.goTo frames w control) ∧
    plan.Returns (m'.world.mark (.awaited x outcome)) outcome w control ∧
      ∀ {n}, Leads (fun _ => True) (m'.goTo frames w control) n → n.world.awaited x = [outcome]

/-- The fiber is unwound, somebody warns, once, and the loop of the driver that has the turn
goes on. -/
structure Misses (m : Machine) (fiber : Fiber) (lost : String → Event) (m' : Machine) : Prop where
  unwound : m.world.Unwinds fiber m'.world
  silent : m'.world.losses = m.world.losses
  warned : ∃ fault next, m'.control = .answer (.error fault) ∧ m'.step? = some next ∧
    next.world.history = (m'.world.tell (lost fault.message)).history ∧
      next.world.losses = m.world.losses + 1 ∧
      (∃ e phase phase' frames, m.top = .driving e phase :: frames ∧
        next.top = .driving e phase' :: frames) ∧ ∃ later, next.step? = some later

theorem losses_of_advance (hm : m.Sound True) (hstep : m.step? = some m')
    (hadvance : m.control = .advance) : m'.world.losses = m.world.losses := by
  refine (hm.losses hstep).resolve_right ?_
  rintro ⟨frame, frames, fault, -, hloses, -⟩
  rw [hadvance] at hloses
  cases hloses

theorem Hands.arrives (h : m.Hands d x outcome s stack w m') (hm : m.Sound True)
    (hstep : m.step? = some m') (hparks : m.ParksFor x fiber s) : m.Arrives x fiber outcome m' := by
  obtain ⟨hinside, hresumed⟩ := h.enters hm hparks
  have hm' : m'.Sound True := hm.follows (.steps hstep)
  obtain ⟨plan, frames, htop⟩ : ∃ plan frames, m'.top = .awaiting x plan :: frames := by
    obtain ⟨running, below, hrunning, rfl⟩ := hinside
    obtain ⟨plan, frames, hframes⟩ := hparks.awaits
    refine ⟨plan, frames, ?_⟩
    rw [top, hrunning]
    exact hframes
  obtain ⟨w, control, hnext, hreturns, honce⟩ := hm'.returns_once htop hresumed
  exact ⟨hinside, hresumed, losses_of_advance hm hstep h.advances, hm'.awaited_nil htop, plan,
    frames, w, control, htop, hnext, hreturns, honce⟩

theorem Hosted.agenda_of_driving (h : m.Hosted) (hm : m.Sound True) {phase : DriverPhase}
    {frames : List Frame} (htop : m.top = .driving d phase :: frames) : m.world.agenda.isSome := by
  have houtside := Sound.running_of_driving hm htop
  have hclaimed := h.claimed (by
    rw [phases_of_root (by rw [inFiber, houtside]; rfl), htop]
    simp [Frame.driving?])
  rwa [World.claims, Option.isSome_map] at hclaimed

theorem Hears.agenda (h : Hears d stack lost loop) (hhosted : m.Hosted) (houtside : m.running = [])
    (htop : m.top = stack) : m.world.agenda.isSome := by
  have hclaimed := hhosted.claimed (by
    rw [phases_of_root (by rw [inFiber, houtside]; rfl), htop]
    cases h <;> simp [Frame.driving?])
  rwa [World.claims, Option.isSome_map] at hclaimed

theorem Sound.fed_of_step (hm : m.Sound True) (hstep : m.step? = some m') {e : DriverId}
    (hfed : m.world.fedBy e = some t) : m'.world.fedBy e = some t :=
  have hmoves : Moves (fun _ => True) m m' := step_moves hstep hm fun _ _ => trivial
  (hm.works hmoves).fed hfed

theorem Hands.misses (h : m.Hands d x outcome t stack w m') (hears : Hears d stack lost loop)
    {script : Script} (hvisits : Visits (fun _ => True) script.start m)
    (ha : m.Attends kin (fun _ => true) d) (hstep : m.step? = some m') {e : DriverId}
    {phase phase' : DriverPhase} {frames : List Frame} (htop : m.top = .driving e phase :: frames)
    (hloop : loop = .driving e phase' :: frames) (hparks : m.ParksFor x fiber s) (hne : s ≠ t) :
    m.Misses fiber lost m' := by
  have hm : m.Sound True := hvisits.sound fun _ _ _ _ => trivial
  have hvisits' : Visits (fun _ => True) script.start m' :=
    hvisits.leads (Follows.steps hstep).leads
  have hm' : m'.Sound True := hm.follows (.steps hstep)
  have hfed : ∀ {f u}, m.world.fedBy f = some u → m'.world.fedBy f = some u := hm.fed_of_step hstep
  obtain ⟨id, w', heq, -⟩ := h.refused hparks hne
  have hanswer : m'.control = .answer (.error (.foreignHandle id)) := by rw [heq]; rfl
  have htop' : m'.top = stack := by rw [heq, goTo_top]
  have houtside : m'.running = [] := by
    have hbefore := h.outside
    rw [heq]
    obtain ⟨world, running, root, control⟩ := m
    cases hbefore
    rfl
  have hsilent := losses_of_advance hm hstep h.advances
  obtain ⟨next, hnext, hnextTop, hadvance, hhistory⟩ :=
    hears.warns hm' htop' hanswer ⟨t, hfed h.fed⟩ (hears.agenda hvisits'.hosted houtside htop')
  have hnextSound : next.Sound True := hm'.follows (.steps hnext)
  have hnextVisits := hvisits'.leads (Follows.steps hnext).leads
  obtain ⟨⟨u, hu⟩, -⟩ := fedBy_of_step hm htop hstep
  have hlater := hm'.fed_of_step hnext (hfed hu)
  refine ⟨h.unwinds hm hvisits.attended ha (hvisits.hosted.held h.held) hvisits.hosted
    hvisits.distinct hstep hparks hne, hsilent, _, next, hanswer, hnext,
    hhistory, ?_, ⟨e, phase, phase', frames, htop, hnextTop.trans hloop⟩, ?_⟩
  · rw [World.losses, hhistory, ← World.losses, World.losses_tell_loss _ (hears.isLoss _), hsilent]
  · exact hears.goes_on hnextSound hloop hnextTop hadvance ⟨u, hlater⟩
      (hnextVisits.hosted.agenda_of_driving hnextSound (hnextTop.trans hloop))

/-! ### When something is given away -/

/-- In its turn a call that has what it waits for gives its handle away, unless its future
panics. -/
theorem Visits.gives_call {script : Script} (h : Visits (fun _ => True) script.start m)
    {e : DriverId} {turns key : Nat} {rest : List Nat} {work : Work} {frames : List Frame}
    {agenda : Agenda} (htop : m.top = .driving e (.poll (turns + 1)) :: frames)
    (hcontrol : m.control = .advance) (hagenda : m.world.agenda = some agenda)
    (hready : agenda.ready = key :: rest)
    (hfind : agenda.find? key = some ⟨key, d, .holding x work⟩) (hover : work.isOver m.world = true)
    {outcome : Resumption} (hending : work.ending = .done outcome) :
    ∃ m', m.GivesAway d x outcome (.callLost (m.world.handleId x)) m' := by
  have hm : m.Sound True := h.sound fun _ _ _ _ => trivial
  have hcall : ⟨key, d, .holding x work⟩ ∈ agenda.calls := List.mem_of_find?_eq_some hfind
  obtain ⟨server, hserver⟩ := h.tallied.driver_of_call hagenda hcall
  obtain ⟨w, hturn, hshift, hsame, hdrivers, -⟩ :=
    move_of_turn htop hcontrol (h.driver_of_driving htop) hagenda hready hfind rfl hover
  have hd : w.driver? d = some server := by
    rw [World.driver?, hdrivers]
    exact hserver
  have hfinishes : m.Finishes ⟨key, d, .holding x work⟩ x work { agenda with ready := rest } w :=
    ⟨hcontrol, hshift, hsame, hcall, rfl⟩
  have hhands := hfinishes.hands hm htop hending hd
  have hstep : m.step? =
      some ((m.goTo (.completing d key (w.handleId x) :: .driving e (.poll turns) :: frames)
      { w with agenda := some (Agenda.setState { agenda with ready := rest } key .handing) }
      .advance).deliver
        server.scheduler x outcome) := by
    rw [hm.step?_eq, hturn, Machine.complete]
    simp only [goTo_world, hd, World.updateAgenda, hsame, Option.map_some, goTo_withWorld,
      goTo_push, hending, endFuture]
  have hclaims := hhands.claims (World.exists_cell hhands.alive)
  have hgiven : (key, d, none) ∈
      (Agenda.setState { agenda with ready := rest } key .handing).calls.map HostCall.claim := by
    rw [claims_setState, List.map_map]
    exact List.mem_map.2 ⟨_, hcall, if_pos rfl⟩
  rw [World.claims, World.claims, Option.map_some, Option.map_eq_some_iff] at hclaims
  obtain ⟨agenda', hagenda', hsame'⟩ := hclaims
  rw [← hsame'] at hgiven
  obtain ⟨call', hcall', hclaim'⟩ := List.mem_map.1 hgiven
  exact ⟨_, .call htop hagenda hcall hending hstep hagenda' (HostCall.eq_of_given hclaim' ▸ hcall')⟩

/-- A driver that settles gives away the handle of whoever is next. -/
theorem Visits.gives_waiter {script : Script} (h : Visits (fun _ => True) script.start m)
    {waiters : List HandleRef} {frames : List Frame}
    (htop : m.top = .driving d (.settle (x :: waiters)) :: frames)
    (hcontrol : m.control = .advance) :
    ∃ m', m.GivesAway d x .unit (.waiterLost (m.world.handleId x)) m' := by
  have hm : m.Sound True := h.sound fun _ _ _ _ => trivial
  obtain ⟨driver, hdriver⟩ := h.driver_of_driving htop
  obtain ⟨agenda, hagenda⟩ := Option.isSome_iff_exists.1 (h.hosted.agenda_of_driving hm htop)
  have hstep : ∃ m', m.step? = some m' := by
    rw [hm.step?_of_top htop]
    simp only [react?, stepDriver?, goTo_world, goTo_control, hdriver, hagenda, hcontrol]
    exact ⟨_, rfl⟩
  exact hstep.imp fun m' hstep => .waiter htop hstep

/-! ### Whole sessions -/

/-- Only tasks of the scheduler that the driver feeds use the driver. -/
def UsedAtHome (d : DriverId) (m : Machine) : Prop :=
  ∀ running ∈ m.user? d, running.home.isSome ∧ running.home = m.world.fedBy d

/-- Only tasks use the driver, of whichever scheduler. -/
def UsedByTasks (d : DriverId) (m : Machine) : Prop := ∀ running ∈ m.user? d, running.home.isSome

instance (d : DriverId) (m : Machine) : Decidable (UsedAtHome d m) :=
  inferInstanceAs
    (Decidable (∀ running ∈ m.user? d, running.home.isSome ∧ running.home = m.world.fedBy d))

instance (d : DriverId) (m : Machine) : Decidable (UsedByTasks d m) :=
  inferInstanceAs (Decidable (∀ running ∈ m.user? d, running.home.isSome))

theorem VisitsThrough.attends_home {script : Script}
    (h : VisitsThrough (UsedAtHome d) script.start m) :
    m.Attends (fun w s => w.fedBy d = some s) (fun _ => true) d := by
  refine VisitsThrough.attends (h.imp fun m hused running member => ?_) fun hfed hs => hfed hs
  rw [asker?_of_any] at member
  obtain ⟨hsome, hhome⟩ := hused running member
  obtain ⟨s, hs⟩ := Option.isSome_iff_exists.1 hsome
  exact ⟨s, hs, hhome.symm.trans hs⟩

theorem VisitsThrough.attends_tasks {script : Script}
    (h : VisitsThrough (UsedByTasks d) script.start m) :
    m.Attends (fun _ _ => True) (fun _ => true) d := by
  refine VisitsThrough.attends (h.imp fun m hused running member => ?_) fun _ hs => hs
  rw [asker?_of_any] at member
  exact (Option.isSome_iff_exists.1 (hused running member)).imp fun _ hs => ⟨hs, trivial⟩

/-- Nothing that the driver gives away was refused. -/
theorem VisitsThrough.unrefused {script : Script} (h : VisitsThrough (UsedAtHome d) script.start m)
    {frame : Frame} {frames : List Frame} {fault : SchedulerFault} (htop : m.top = frame :: frames)
    (hloses : frame.Loses m.control fault) :
    frame.server? ≠ some d := by
  induction h with
  | begins action => cases hloses.1
  | @follows a _ ha hused hfollows ih =>
    cases hfollows with
    | stirs => exact ih htop hloses
    | steps hstep =>
      have hsound : a.Sound True := ha.visits.sound fun _ _ _ _ => trivial
      obtain ⟨e, x, outcome, t, stack, w, hserver, hhands⟩ :=
        hsound.hands_of_refused hstep htop hloses
      rw [hserver]
      rintro ⟨⟩
      obtain ⟨fiber, s, hparks, hs⟩ :=
        ha.attends_home.parksFor (ha.visits.hosted.held hhands.held) hhands.advances
      cases hs.symm.trans hhands.fed
      have hresumed := (hhands.enters hsound hparks).2
      rw [hloses.1] at hresumed
      cases hresumed
    | goesOn hdone action => cases hloses.1
    | closes hdone => cases hloses.1

/-- A step of a session warns of a loss only for drivers that others use, too. -/
theorem VisitsThrough.losses {script : Script} (h : VisitsThrough (UsedAtHome d) script.start m)
    (hfollows : m.Follows m') :
    m'.world.losses = m.world.losses ∨ ∃ frame frames e, m.top = frame :: frames ∧
      frame.server? = some e ∧ e ≠ d := by
  have hm : m.Sound True := h.visits.sound fun _ _ _ _ => trivial
  have hshown : World.losses (Script.showOutcome m) = m.world.losses := by
    rw [Script.showOutcome]
    split
    · exact (World.losses_write ..).trans (Nat.add_zero _)
    · exact (World.losses_write ..).trans (Nat.add_zero _)
    · rfl
  cases hfollows with
  | steps hstep =>
    refine (hm.losses hstep).imp_right ?_
    rintro ⟨frame, frames, fault, htop, hloses⟩
    have hnot := h.unrefused htop hloses
    obtain ⟨-, hframe⟩ := hloses
    refine ⟨frame, frames, ?_⟩
    cases frame with
    | completing e => exact ⟨e, htop, rfl, fun heq => hnot (heq ▸ rfl)⟩
    | driving e phase =>
      cases phase with
      | resuming => exact ⟨e, htop, rfl, fun heq => hnot (heq ▸ rfl)⟩
      | _ => exact hframe.elim
    | _ => exact hframe.elim
  | stirs hstirs =>
    rw [withWorld_world, hstirs.rest]
    exact .inl rfl
  | goesOn hdone action => exact .inl hshown
  | closes hdone =>
    exact .inl ((World.losses_of_adds (World.adds_close World.unremarkable_losses _)).trans hshown)

theorem VisitsThrough.losses_eq_zero {script : Script}
    (h : VisitsThrough (fun m => ∀ e, m.UsedAtHome e) script.start m) : m.world.losses = 0 := by
  induction h with
  | begins action =>
    rw [World.losses, Script.begin, World.history_start]
    rfl
  | @follows a b ha hused hfollows ih =>
    have hat : ∀ e, VisitsThrough (UsedAtHome e) script.start a :=
      fun e => ha.imp fun _ hused => hused e
    rcases (hat ⟨0⟩).losses hfollows with hsame | ⟨frame, frames, e, htop, hserver, -⟩
    · exact hsame.trans ih
    · rcases (hat e).losses hfollows with hsame | ⟨frame', frames', e', htop', hserver', hne⟩
      · exact hsame.trans ih
      · rw [htop] at htop'
        cases htop'
        rw [hserver] at hserver'
        exact absurd (Option.some.inj hserver').symm hne

/-- How a driver serves those who wait for it, at a moment of a session in which only tasks
use the driver. -/
structure Reliable (script : Script) (d : DriverId) (m : Machine) : Prop where
  /-- A call that has what it waits for completes in its turn, unless its future panics. -/
  completes {e : DriverId} {turns key : Nat} {rest : List Nat} {work : Work} {frames : List Frame}
    {agenda : Agenda} {x : HandleRef} (htop : m.top = .driving e (.poll (turns + 1)) :: frames)
    (hcontrol : m.control = .advance) (hagenda : m.world.agenda = some agenda)
    (hready : agenda.ready = key :: rest)
    (hfind : agenda.find? key = some ⟨key, d, .holding x work⟩) (hover : work.isOver m.world = true)
    {outcome : Resumption} (hending : work.ending = .done outcome) :
    ∃ m', m.GivesAway d x outcome (.callLost (m.world.handleId x)) m'
  /-- What it hands over is what the future ended with that the call was issued for. -/
  future {agenda : Agenda} {key : Nat} {x : HandleRef} {work : Work}
    (hagenda : m.world.agenda = some agenda) (hcall : ⟨key, d, .holding x work⟩ ∈ agenda.calls) :
    ∃ a b, Visits (fun _ => True) script.start a ∧ a.Issues b x work.ending ∧
      Leads (fun _ => True) b m
  /-- One who waits for all calls has his turn once the driver has taken him. -/
  turns {x : HandleRef} {waiters : List HandleRef} {frames : List Frame}
    (htop : m.top = .driving d (.settle (x :: waiters)) :: frames)
    (hcontrol : m.control = .advance) :
    ∃ m', m.GivesAway d x .unit (.waiterLost (m.world.handleId x)) m'
  /-- If only tasks of its own scheduler use the driver, whatever it gives away arrives. -/
  arrives {x : HandleRef} {outcome : Resumption} {lost : String → Event} {m' : Machine}
    (hhome : VisitsThrough (UsedAtHome d) script.start m)
    (hgives : m.GivesAway d x outcome lost m') :
    ∃ fiber s, m.world.fedBy d = some s ∧ m.ParksFor x fiber s ∧ m.Arrives x fiber outcome m'
  /-- Then nobody ever warns, unless for another driver. -/
  silent {m' : Machine} (hhome : VisitsThrough (UsedAtHome d) script.start m)
    (hfollows : m.Follows m') :
    m'.world.losses = m.world.losses ∨ ∃ frame frames e, m.top = frame :: frames ∧
      frame.server? = some e ∧ e ≠ d
  quiet (hhome : VisitsThrough (fun m => ∀ e, m.UsedAtHome e) script.start m) : m.world.losses = 0
  /-- A task of another scheduler is missed. -/
  misses {x : HandleRef} {outcome : Resumption} {lost : String → Event} {m' : Machine}
    (hgives : m.GivesAway d x outcome lost m') :
    ∃ fiber s t, m.ParksFor x fiber s ∧ m.world.fedBy d = some t ∧
      (s = t → m.Arrives x fiber outcome m') ∧ (s ≠ t → m.Misses fiber lost m')

/-- What a driver gives away arrives, once, at whoever waits for it, if the driver feeds his
scheduler. Otherwise he is unwound, with one warning, and the driver goes on. -/
theorem deliveries_reach_who_waits {script : Script}
    (h : VisitsThrough (UsedByTasks d) script.start m) : Reliable script d m where
  completes := h.visits.gives_call
  future {agenda key x work} hagenda hcall := by
    have hpromise : (key, some (x, work.ending)) ∈ m.world.promises := by
      rw [World.promises, hagenda]
      exact List.mem_map.2 ⟨_, hcall, rfl⟩
    exact h.visits.issued hpromise
  turns := h.visits.gives_waiter
  arrives {x outcome lost m'} hhome hgives := by
    have hm : m.Sound True := h.visits.sound fun _ _ _ _ => trivial
    obtain ⟨t, stack, loop, w, hhands, -⟩ := hgives.hands hm
    obtain ⟨fiber, s, hparks, hs⟩ :=
      hhome.attends_home.parksFor (h.visits.hosted.held hhands.held) hhands.advances
    cases hs.symm.trans hhands.fed
    exact ⟨fiber, t, hs, hparks, hhands.arrives hm hgives.step hparks⟩
  silent hhome := hhome.losses
  quiet := VisitsThrough.losses_eq_zero
  misses {x outcome lost m'} hgives := by
    have hm : m.Sound True := h.visits.sound fun _ _ _ _ => trivial
    obtain ⟨t, stack, loop, w, hhands, hears, e, phase, frames, htop, phase', hloop⟩ :=
      hgives.hands hm
    obtain ⟨fiber, home, hparks, -⟩ :=
      h.attends_tasks.parksFor (h.visits.hosted.held hhands.held) hhands.advances
    refine ⟨fiber, home, t, hparks, hhands.fed, fun heq => ?_, fun hne => ?_⟩
    · exact (heq ▸ hhands).arrives hm hgives.step hparks
    · exact hhands.misses hears h.visits h.attends_tasks hgives.step htop hloop hparks hne

/-- Two tasks of one scheduler. One sleeps through the driver of this scheduler, the other
one through the driver of another scheduler. -/
def sleepAbroad : Action :=
  .scope [.newDriver 0, .newDriver 1, .enqueue 0 [.sleep 0 5 .raise],
    .enqueue 0 [.sleep 1 3 .raise], .drive 0] false

/-- The state of that program after some steps, with two schedulers. -/
def abroad (steps : Nat) : Machine := (Script.begin Script.pair.start sleepAbroad).settle steps

theorem visits_abroad {P : Machine → Prop} (steps : Nat) (h : ∀ i < steps, P (abroad i)) :
    VisitsThrough P Script.pair.start (abroad steps) :=
  (VisitsThrough.begins sleepAbroad).settle steps h

/-- The one that sleeps through its own driver is resumed, the other one is unwound. -/
theorem sleeper_at_home_is_reached :
    (∀ i < 26, UsedByTasks ⟨0⟩ (abroad i) ∧ UsedByTasks ⟨1⟩ (abroad i) ∧
      UsedAtHome ⟨0⟩ (abroad i)) ∧
      (∃ fiber lost m', (abroad 21).Misses fiber lost m') ∧
      ∃ fiber m', (abroad 26).Arrives ⟨0⟩ fiber .unit m' := by
  have hused : ∀ i < 26, UsedByTasks ⟨0⟩ (abroad i) ∧ UsedByTasks ⟨1⟩ (abroad i) ∧
      UsedAtHome ⟨0⟩ (abroad i) := by
    decide +kernel
  refine ⟨hused, ?_, ?_⟩
  · have htasks : VisitsThrough (UsedByTasks ⟨1⟩) Script.pair.start (abroad 21) :=
      visits_abroad 21 fun i hi => (hused i (Nat.lt_trans hi (by decide))).2.1
    obtain ⟨agenda, hagenda, hready, hfind⟩ : ∃ agenda, (abroad 21).world.agenda = some agenda ∧
        agenda.ready = [1] ∧ agenda.find? 1 = some ⟨1, ⟨1⟩, .holding ⟨1⟩ .asleep⟩ :=
      ⟨_, by with_unfolding_all rfl, by with_unfolding_all rfl, by with_unfolding_all rfl⟩
    obtain ⟨frames, htop⟩ : ∃ frames, (abroad 21).top = .driving ⟨0⟩ (.poll 61) :: frames :=
      ⟨_, by with_unfolding_all rfl⟩
    have hserves := deliveries_reach_who_waits htasks
    obtain ⟨m', hgives⟩ :=
      hserves.completes htop (by with_unfolding_all rfl) hagenda hready hfind rfl rfl
    obtain ⟨fiber, s, t, hparks, hfed, -, hmisses⟩ := hserves.misses hgives
    obtain ⟨cell, other, hcell, hslot⟩ : ∃ cell other, (abroad 21).world.handles.get?
        ⟨1⟩ = some cell ∧
        cell.slot = .parked other (.scheduler ⟨0⟩) :=
          ⟨_, _, by with_unfolding_all rfl, by with_unfolding_all rfl⟩
    have hone : (abroad 21).world.fedBy ⟨1⟩ = some ⟨1⟩ := by with_unfolding_all rfl
    refine ⟨fiber, _, m', hmisses ?_⟩
    rintro rfl
    obtain ⟨cell', hcell', hslot'⟩ := hparks.parked
    rw [hcell] at hcell'
    cases hcell'
    rw [hslot] at hslot'
    cases hslot'
    rw [hone] at hfed
    cases hfed
  · have htasks : VisitsThrough (UsedByTasks ⟨0⟩) Script.pair.start (abroad 26) :=
      visits_abroad 26 fun i hi => (hused i hi).1
    have hhome : VisitsThrough (UsedAtHome ⟨0⟩) Script.pair.start (abroad 26) :=
      visits_abroad 26 fun i hi => (hused i hi).2.2
    obtain ⟨agenda, hagenda, hready, hfind⟩ : ∃ agenda, (abroad 26).world.agenda = some agenda ∧
        agenda.ready = [0] ∧ agenda.find? 0 = some ⟨0, ⟨0⟩, .holding ⟨0⟩ .asleep⟩ :=
      ⟨_, by with_unfolding_all rfl, by with_unfolding_all rfl, by with_unfolding_all rfl⟩
    obtain ⟨frames, htop⟩ : ∃ frames, (abroad 26).top = .driving ⟨0⟩ (.poll 61) :: frames :=
      ⟨_, by with_unfolding_all rfl⟩
    have hserves := deliveries_reach_who_waits htasks
    obtain ⟨m', hgives⟩ :=
      hserves.completes htop (by with_unfolding_all rfl) hagenda hready hfind rfl rfl
    obtain ⟨fiber, s, -, -, harrives⟩ := hserves.arrives hhome hgives
    exact ⟨fiber, m', harrives⟩

end Machine

end Fibers
