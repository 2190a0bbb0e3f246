import Mathlib.Algebra.GroupWithZero.Nat
import Fibers.Proofs.Driving
import Fibers.Proofs.Timers

/-!
Sleepers. Tasks that do nothing with the host but sleep. Each call to sleep has a deadline,
which is what its task has slept for in all once the call is over.
-/

namespace Fibers

/-- A sleep that waits for the driver, with its handle and its milliseconds. -/
def Mark.slept? (d : DriverId) : Mark → Option (HandleRef × Nat)
  | .opened x plan =>
    match plan.kind with
    | .sleep e milliseconds => if e = d then some (x, milliseconds) else none
    | _ => none
  | _ => none

theorem slept?_of_unheard {told : Mark} (h : ∀ x, told.opened? x = none) (d : DriverId) :
    told.slept? d = none := by
  cases told with
  | opened x plan =>
    have hread := h x
    rw [Mark.opened?, if_pos rfl] at hread
    cases hread
  | _ => rfl

theorem minds_slept? (d : DriverId) : Machine.Minds (Mark.slept? d) := by
  refine ⟨⟨fun told h => ?_, fun _ _ => rfl, fun _ _ => rfl⟩, fun _ _ => rfl⟩
  cases told <;> first | rfl | exact h.elim

theorem Mark.slept?_opened {x : HandleRef} {plan : AwaitPlan} {d : DriverId} {milliseconds : Nat}
    (h : plan.kind = .sleep d milliseconds) :
    Mark.slept? d (.opened x plan) = some (x, milliseconds) := by
  simp [Mark.slept?, h]

/-! ### Deadlines -/

/-- What a task has slept for, and will have when its last sleep is over, if these sleeps are
all there were. -/
def sleepOf (ids : HandleRef → FiberId) (sleeps : List (HandleRef × Nat)) (id : FiberId) : Nat :=
  ((sleeps.filter fun sleep => ids sleep.1 = id).map Prod.snd).sum

theorem sleepOf_append (ids : HandleRef → FiberId) (sleeps more : List (HandleRef × Nat))
    (id : FiberId) :
    sleepOf ids (sleeps ++ more) id = sleepOf ids sleeps id + sleepOf ids more id := by
  rw [sleepOf, List.filter_append, List.map_append, List.sum_append]
  rfl

theorem sleepOf_singleton (ids : HandleRef → FiberId) (x : HandleRef) (milliseconds : Nat)
    (id : FiberId) :
    sleepOf ids [(x, milliseconds)] id = if ids x = id then milliseconds else 0 := by
  rw [sleepOf, List.filter_singleton]
  by_cases h : ids x = id <;> simp [h]

theorem sleepOf_congr {ids ids' : HandleRef → FiberId} {sleeps : List (HandleRef × Nat)}
    (h : ∀ sleep ∈ sleeps, ids' sleep.1 = ids sleep.1) (id : FiberId) :
    sleepOf ids' sleeps id = sleepOf ids sleeps id := by
  rw [sleepOf, sleepOf]
  congr 2
  exact List.filter_congr fun sleep member => by rw [h sleep member]

/-- Handles are numbered in the order in which they are made, so these are the sleeps up to
one of them. -/
def sleepsUpTo (sleeps : List (HandleRef × Nat)) (x : HandleRef) : List (HandleRef × Nat) :=
  sleeps.filter fun sleep => sleep.1.index ≤ x.index

namespace World

variable {first a b c w : World} {x y : HandleRef} {d : DriverId} {s : SchedulerId} {id : FiberId}

/-- The sleeps that wait for the driver, in the order in which they were issued. -/
def slept (w : World) (d : DriverId) : List (HandleRef × Nat) := w.told (Mark.slept? d)

/-- The sleeps that were issued since. -/
def sleptSince (first w : World) (d : DriverId) : List (HandleRef × Nat) :=
  (w.slept d).drop (first.slept d).length

/-- The awaits that came back since, in the order in which they did. -/
def returnedSince (first w : World) : List HandleRef :=
  (w.told Mark.returns?).drop (first.told Mark.returns?).length

/-- How long the task has slept since, or will have when its last sleep is over. -/
def timeOf (first w : World) (d : DriverId) (id : FiberId) : Nat :=
  sleepOf w.handleId (sleptSince first w d) id

/-- The deadline of a sleep: all that its task has slept for since, up to and including it. -/
def deadline (first w : World) (d : DriverId) (x : HandleRef) : Nat :=
  sleepOf w.handleId (sleepsUpTo (sleptSince first w d) x) (w.handleId x)

theorem opened_of_slept {sleep : HandleRef × Nat} (member : sleep ∈ w.slept d) :
    ∃ plan ∈ w.opened sleep.1, plan.kind = .sleep d sleep.2 := by
  obtain ⟨told, hmem, hread⟩ := mem_told.1 member
  cases told with
  | opened y plan =>
    rw [Mark.slept?] at hread
    split at hread
    next e milliseconds hkind =>
      split at hread
      next heq =>
        cases hread
        exact ⟨plan, mem_told.2 ⟨_, hmem, if_pos rfl⟩, heq ▸ hkind⟩
      next => cases hread
    next => cases hread
  | _ => cases hread

/-- The host has gone on so far. -/
def hosting (w : World) (agenda : Agenda) : World := { w with agenda := some agenda }

/-! ### Whose handles they are -/

theorem handleId_of_get? {cell : HandleCell} (h : w.handles.get? x = some cell) :
    w.handleId x = cell.id := by
  rw [handleId, h]

/-- Handles go on to be those of the same fibers. -/
structure Recalls (a b : World) : Prop where
  cells : ∀ x cell, a.handles.get? x = some cell → ∃ after, b.handles.get? x = some after ∧
    after.id = cell.id

theorem Recalls.trans (before : a.Recalls b) (after : b.Recalls c) : a.Recalls c := by
  refine ⟨fun x cell hcell => ?_⟩
  obtain ⟨cell', hcell', hid⟩ := before.cells x cell hcell
  obtain ⟨cell'', hcell'', hid'⟩ := after.cells x cell' hcell'
  exact ⟨cell'', hcell'', hid'.trans hid⟩

theorem recalls_of_handles (h : b.handles = a.handles) : a.Recalls b :=
  ⟨fun _ cell hcell => ⟨cell, h ▸ hcell, rfl⟩⟩

theorem Recalls.handleId (h : a.Recalls b) (hx : a.handles.get? x ≠ none) :
    b.handleId x = a.handleId x := by
  obtain ⟨cell, hcell⟩ := Option.ne_none_iff_exists'.1 hx
  obtain ⟨after, hafter, hid⟩ := h.cells x cell hcell
  rw [World.handleId, World.handleId, hcell, hafter]
  exact hid

theorem NoArrivals.recalls (h : a.NoArrivals b) : a.Recalls b := by
  refine ⟨fun x cell hcell => ?_⟩
  have hsameOrGone := h.cells x
  rw [hcell] at hsameOrGone
  generalize b.handles.get? x = new at hsameOrGone
  cases hsameOrGone with
  | kept => exact ⟨_, rfl, rfl⟩
  | emptied => exact ⟨_, rfl, rfl⟩

theorem recalls_setSlot {cell : HandleCell} (hcell : w.handles.get? x = some cell)
    (slot : Slot Fiber Owner Resumption) : w.Recalls (w.setSlot x slot) := by
  refine ⟨fun y old hold => ?_⟩
  rw [get?_setSlot hcell]
  split
  next heq =>
    obtain rfl := Option.some.inj ((heq ▸ hold).symm.trans hcell)
    exact ⟨_, rfl, rfl⟩
  next => exact ⟨old, hold, rfl⟩

theorem Parks.recalls {cell : HandleCell} {fiber : Fiber} {owner : Owner}
    {result : Option (Fiber × Resumption) × World} (h : w.Parks x cell fiber owner result)
    (hcell : w.handles.get? x = some cell) : w.Recalls result.2 := by
  cases h with
  | absorbed hslot u hu =>
    have hhandles : u.handles = w.handles := by rcases hu with rfl | rfl <;> rfl
    exact (recalls_of_handles hhandles).trans
      ((recalls_setSlot (hhandles ▸ hcell) _).trans (noArrivals_release _ _).recalls)
  | met => exact (recalls_setSlot hcell _).trans (noArrivals_release _ _).recalls
  | refused =>
    exact (recalls_of_handles (a := w) (b := w.tell (.usedHandle fiber.id)) rfl).trans
      (noArrivals_release _ _).recalls

theorem recalls_openAwait (w : World) (current : FiberId) (plan : AwaitPlan) (clones : Nat) :
    w.Recalls (Machine.openAwait w current plan clones).2 := by
  refine ⟨fun x cell hcell => ⟨cell, ?_, rfl⟩⟩
  change (w.makeHandle current clones).2.handles.get? x = _
  rw [get?_makeHandle, if_neg]
  · exact hcell
  · rintro rfl
    rw [HandleTable.get?, HandleTable.next, List.getElem?_eq_none (Nat.le_refl _)] at hcell
    cases hcell

theorem Opens.recalls {plan : AwaitPlan} (h : w.Opens x plan a) : w.Recalls a := by
  obtain ⟨current, clones, hbefore, -, hafter⟩ := h
  exact hbefore.toNoArrivals.recalls.trans
    ((recalls_openAwait _ _ _ _).trans hafter.toNoArrivals.recalls)

end World

namespace Machine

variable {m m' : Machine} {p : Permit} {d : DriverId} {s : SchedulerId} {rest frames : List Frame}
  {x : HandleRef} {fiber : Fiber} {resumption : Resumption} {cell : HandleCell}

theorem recalls_enter (m : Machine) (fiber : Fiber) (resumption : Resumption) :
    m.world.Recalls (m.enter fiber resumption).world := by
  rw [enter.eq_def]
  split
  · split <;> exact World.recalls_of_handles rfl
  · exact World.recalls_of_handles rfl
  · exact (World.noArrivals_release _ _).recalls

theorem Delivers.recalls (h : Delivers m s x cell resumption m')
    (hcell : m.world.handles.get? x = some cell) : m.world.Recalls m'.world := by
  have hlaid : ∀ (slot : Slot Fiber Owner Resumption) (told : Mark) {u : World},
      u.handles = (((m.world.setSlot x slot).mark told).release [.handle x]).handles →
        m.world.Recalls u :=
    fun slot told u hhandles => (World.recalls_setSlot hcell slot).trans
      ((World.recalls_of_handles (a := m.world.setSlot x slot)
        (b := (m.world.setSlot x slot).mark told) rfl).trans
        ((World.noArrivals_release _ _).recalls.trans (World.recalls_of_handles hhandles)))
  cases h with
  | stored => exact hlaid (.woken resumption) (.accepted x resumption) rfl
  | queued => exact hlaid .spent (.accepted x resumption) rfl
  | dispatched =>
    refine .trans ?_ (recalls_enter ..)
    exact hlaid .spent (.accepted x resumption) rfl
  | refused fault event hslot hother hquiet =>
    exact ((World.noArrivals_release _ _).trans (.tell _ hquiet.1)).recalls

theorem Sound.recalls_receives {exit : Exit} {w : World} (hm : m.Sound True)
    (hcontrol : m.control = .back fiber exit) (h : m.world.Receives s fiber exit w) :
    m.world.Recalls w := by
  cases h with
  | parked hcell hbefore hsame hparks =>
    exact (hbefore.noArrivals hm.kept).recalls.trans (hparks.recalls (hsame ▸ hcell))
  | handedBack hcell hbefore hsame hparks =>
    exact (hbefore.noArrivals hm.kept).recalls.trans
      ((hparks.recalls (hsame ▸ hcell)).trans (World.recalls_of_handles rfl))
  | ended hexit hafter => exact (hafter.noArrivals (hm.kept_of_back hcontrol)).recalls

theorem Drains.recalls {ran : Nat} {max : Option Nat} (hm : m.Sound True)
    (htop : m.top = .draining s ran max :: frames)
    (h : Drains (m.goTo frames m.world .advance) s ran max m') : m.world.Recalls m'.world := by
  have hkept := hm.kept_of_top htop
  have hnext : ∀ {entry w}, m.world.next? s = some (entry, w) → m.world.Recalls w :=
    fun hnext => World.recalls_of_handles (World.handles_next hnext)
  cases h with
  | stops => exact World.recalls_of_handles rfl
  | fails hmore htaken hbefore hafter =>
    have hbegun := ((hkept.next htaken).drift_gain hbefore).noArrivals
    have hfailed := hafter.noArrivals (World.Sound.unstarted ((hkept.next htaken).gain hbefore))
    refine (hnext htaken).trans (hbegun.recalls.trans (.trans ?_ hfailed.recalls))
    exact World.recalls_of_handles rfl
  | starts hmore htaken hbefore =>
    refine .trans ?_ (recalls_enter ..)
    exact (hnext htaken).trans ((hkept.next htaken).drift_gain hbefore).noArrivals.recalls
  | wakes hmore htaken =>
    refine .trans ?_ (recalls_enter ..)
    exact hnext htaken

theorem ErrandMove.recalls (h : m.ErrandMove p d m') : m.world.Recalls m'.world := by
  cases h with
  | goesOn pushed htop hcontrol hpushed hless hcode hnoProgress =>
    exact hnoProgress.toNoArrivals.recalls
  | enqueues => exact World.recalls_of_handles (World.handles_enqueue ..)
  | calls htop hcontrol hlabor htakes =>
    exact htakes.opens.recalls.trans (World.recalls_of_handles (suspendAwait_handles ..).1)
  | concludes htop hcontrol hcode hnoProgress =>
    refine .trans ?_ hnoProgress.toNoArrivals.recalls
    exact World.recalls_of_handles rfl
  | leaves =>
    obtain ⟨w, hhandles, -, hnoArrivals⟩ := noArrivals_of_leave m ..
    exact (World.recalls_of_handles hhandles).trans hnoArrivals.recalls

theorem Hands.recalls {outcome : Resumption} {stack : List Frame} {w : World}
    (h : m.Hands d x outcome s stack w m') : m.world.Recalls m'.world := by
  obtain ⟨cell, hcell⟩ := World.exists_cell h.alive
  have hdelivers := (m.goTo stack w .advance).delivers s hcell outcome
  rw [← h.eq] at hdelivers
  exact h.noArrivals.recalls.trans (hdelivers.recalls hcell)

/-- Whoever a handle belongs to, it does so as long as the run goes on. -/
theorem RunsErrands.recalls (h : m.RunsErrands p d s rest) (hstep : m.step? = some m')
    (hgoes : ¬m.RunsOut d m') : m.world.Recalls m'.world := by
  have hm := h.ordinary.sound
  cases h.errandStep hstep with
  | asks | hears | settles => exact World.recalls_of_handles rfl
  | goesOn hrunning hroot hphase hnoProgress => exact hnoProgress.toNoArrivals.recalls
  | ends hends => exact absurd hends hgoes
  | resumes hroot hhands | completes hroot hhands => exact hhands.recalls
  | @completed key turns id result hrunning hroot hcontrol =>
    obtain ⟨w, heq, hshift⟩ :=
      completed_eq (m.goTo (.driving d (.poll turns) :: rest) m.world m.control) d key id result
    rw [heq]
    exact (hm.noArrivals hshift).recalls.trans (World.recalls_of_handles rfl)
  | drains hbase hrunning hroot hcontrol hdrains =>
    exact hdrains.recalls hm (by rw [top, hrunning]; exact hroot)
  | receives hbase hrunning hroot hcontrol hreceives => exact hm.recalls_receives hcontrol hreceives
  | errandMove hbase hrunning hroot herrandMove => exact herrandMove.recalls

/-! ### What the loop does while it waits -/

/-- What a loop does that waits for the host, where all calls are sleeps. -/
inductive WaitingMove (m : Machine) (d : DriverId) (s : SchedulerId) (rest : List Frame)
    (agenda : Agenda) : Machine → Prop
  | hears (hroot : m.root = .driving d .listen :: rest) :
      WaitingMove m d s rest agenda (m.goTo (.driving d .drain :: rest) (m.world.heard d) .advance)
  | elapses {later : Agenda} (hroot : m.root = .driving d .listen :: rest)
      (hready : agenda.ready = []) (helapse : agenda.elapse? = some later) :
      WaitingMove m d s rest agenda
        (m.goTo (.driving d .listen :: rest) (m.world.hosting later) .advance)
  | polls (hroot : m.root = .driving d .listen :: rest) (hready : agenda.ready ≠ []) :
      WaitingMove m d s rest agenda
        (m.goTo (.driving d (.poll World.turnsPerPoll) :: rest) m.world .advance)
  | listens {turns : Nat} (hroot : m.root = .driving d (.poll turns) :: rest)
      (hnone : turns = 0 ∨ agenda.ready = []) :
      WaitingMove m d s rest agenda (m.goTo (.driving d .listen :: rest) m.world .advance)
  | skips {turns key : Nat} {ready : List Nat}
      (hroot : m.root = .driving d (.poll (turns + 1)) :: rest)
      (hready : agenda.ready = key :: ready)
      (hnone : ∀ call ∈ agenda.calls, call.key = key → call.state = .handing) :
      WaitingMove m d s rest agenda
        (m.goTo (.driving d (.poll turns) :: rest) (m.world.hosting (agenda.later ready)) .advance)
  | setsTimer {turns key milliseconds : Nat} {ready : List Nat} {call : HostCall} {x : HandleRef}
      (hroot : m.root = .driving d (.poll (turns + 1)) :: rest)
      (hready : agenda.ready = key :: ready) (hcall : call ∈ agenda.calls) (hkey : call.key = key)
      (hstate : call.state = .holding x (.sleep milliseconds)) :
      WaitingMove m d s rest agenda (m.goTo (.driving d (.poll turns) :: rest)
        (m.world.hosting ((agenda.later ready).sleep key milliseconds)) .advance)
  | wakes {m' : Machine} {turns key : Nat} {ready : List Nat} {call : HostCall} {x : HandleRef}
      {work : Work} {w : World} {fiber : FiberId}
      (hroot : m.root = .driving d (.poll (turns + 1)) :: rest)
      (hready : agenda.ready = key :: ready) (hcall : call ∈ agenda.calls) (hkey : call.key = key)
      (hstate : call.state = .holding x work) (hover : work = .asleep ∨ work = .sleep 0)
      (hhands : m.Hands d x .unit s
        (.completing d key fiber :: .driving d (.poll turns) :: rest) w m')
      (haside : m'.world.aside =
        (m.world.hosting ((agenda.later ready).setState key .handing)).aside) :
      WaitingMove m d s rest agenda m'

section WaitingMove

variable {agenda : Agenda} {wakes : HandleRef → Nat} {made : Nat}

theorem complete_eq {call : HostCall} {driver : Driver} (m : Machine) (x : HandleRef)
    (outcome : Resumption) (hd : m.world.driver? call.driver = some driver) :
    m.complete call x (.done outcome) =
      ((m.withWorld (m.world.updateAgenda fun agenda => agenda.setState call.key .handing)).push
        (.completing call.driver call.key (m.world.handleId x))).deliver driver.scheduler
        x outcome := by
  rw [complete, hd]
  rfl

theorem poll_of_missing {turns key : Nat} {ready : List Nat} (m : Machine) (d : DriverId)
    (hready : agenda.ready = key :: ready) (hfind : agenda.find? key = none) :
    m.poll d (turns + 1) agenda =
      ((m.withWorld (m.world.hosting (agenda.later ready))).push
        (.driving d (.poll turns))).advance := by
  simp only [poll, hready, hfind]
  rfl

theorem poll_of_found {turns key : Nat} {ready : List Nat} {call : HostCall} (m : Machine)
    (d : DriverId) (hready : agenda.ready = key :: ready) (hfind : agenda.find? key = some call) :
    m.poll d (turns + 1) agenda =
      (((m.withWorld (m.world.hosting (agenda.later ready))).push
          (.driving d (.poll turns))).advance).turn call := by
  simp only [poll, hready, hfind]
  rfl

/-- A ready call that has what it waits for hands it over. -/
theorem RunsErrands.waitingMove_of_over (h : m.RunsErrands p d s rest) {turns key : Nat}
    {ready : List Nat} {call : HostCall} {work : Work} (hrunning : m.running = [])
    (hcontrol : m.control = .advance) (hroot : m.root = .driving d (.poll (turns + 1)) :: rest)
    (hagenda : m.world.agenda = some agenda) (hready : agenda.ready = key :: ready)
    (hcall : call ∈ agenda.calls) (hkey : call.key = key) (hstate : call.state = .holding x work)
    (hover : work = .asleep ∨ work = .sleep 0)
    (hpolled : m' =
      (m.goTo (.driving d (.poll turns) :: rest) (m.world.hosting (agenda.later ready))
      .advance).complete call x (.done .unit)) : m.WaitingMove d s rest agenda m' := by
  have hm := h.ordinary.sound
  have htop : m.top = .driving d (.poll (turns + 1)) :: rest := by rw [top, hrunning]; exact hroot
  have hclaims : m.world.claims = some (agenda.calls.map HostCall.claim) := by
    rw [World.claims, hagenda]
    rfl
  obtain rfl : call.driver = d :=
    h.claims hclaims _ (List.mem_map.2 ⟨call, hcall, by rw [HostCall.claim, hstate]⟩)
  obtain ⟨driver, hd, hfed⟩ := Option.map_eq_some_iff.1 h.fed
  have hending : work.ending = .done .unit := by rcases hover with rfl | rfl <;> rfl
  have hclaimed : (agenda.later ready).calls.map HostCall.claim =
      agenda.calls.map HostCall.claim := rfl
  have hpromised : (agenda.later ready).calls.map HostCall.promise =
      agenda.calls.map HostCall.promise := rfl
  have hshift : m.world.Shift [] (m.world.hosting (agenda.later ready)) [] :=
    World.shift_agenda hagenda hclaimed hpromised []
  have hfinishes : m.Finishes call x work (agenda.later ready)
      (m.world.hosting (agenda.later ready)) :=
    ⟨hcontrol, hshift, rfl, hcall, hstate⟩
  have hhands := hfinishes.hands hm htop hending hd
  rw [hfed] at hhands
  subst hkey
  have heq : m' =
      (m.goTo (.completing call.driver call.key (m.world.handleId x) :: .driving call.driver
      (.poll turns) :: rest)
      (m.world.hosting ((agenda.later ready).setState call.key .handing)) .advance).deliver
      s x .unit := by
    have hdriver :
        (m.goTo (.driving call.driver (.poll turns) :: rest) (m.world.hosting (agenda.later ready))
        .advance).world.driver? call.driver = some driver := by rwa [goTo_world]
    rw [hpolled, complete_eq _ _ _ hdriver, goTo_world]
    simp only [goTo_withWorld, goTo_push, hfed]
    rfl
  refine .wakes hroot hready hcall rfl hstate hover
    (w := m.world.hosting ((agenda.later ready).setState call.key .handing)) (heq ▸ hhands) ?_
  rw [heq, aside_deliver, goTo_world]

theorem RunsErrands.waitingMove (h : m.RunsErrands p d s rest)
    (hagenda : m.world.agenda = some agenda) (hpunctual : agenda.Punctual wakes made)
    {phase : DriverPhase} (hroot : m.root = .driving d phase :: rest) (hlistens : phase.Listens)
    (hstep : m.step? = some m') :
    m.WaitingMove d s rest agenda m' := by
  have hm := h.ordinary.sound
  obtain ⟨driver, hd, hfed⟩ := Option.map_eq_some_iff.1 h.fed
  obtain ⟨hrunning, hcontrol⟩ := h.listening hroot hlistens
  have htop : m.top = .driving d phase :: rest := by rw [top, hrunning]; exact hroot
  rw [h.ordinary.sound.step?_of_top htop] at hstep
  simp only [react?, stepDriver?, goTo_world, goTo_control, hd, hagenda, hcontrol] at hstep
  cases phase with
  | drain | settle | resuming => exact hlistens.elim
  | listen =>
    simp only [listen?] at hstep
    split at hstep
    · simp only [goTo_world, goTo_withWorld, goTo_push, goTo_advance, Option.some.injEq] at hstep
      exact hstep ▸ .hears hroot
    · split at hstep
      next hready =>
        obtain ⟨later, helapse, hstep⟩ := Option.map_eq_some_iff.1 hstep
        simp only [goTo_world, goTo_withWorld, goTo_push, goTo_advance] at hstep
        exact hstep ▸ .elapses hroot (List.isEmpty_iff.1 hready) helapse
      next hready =>
        simp only [goTo_push, goTo_advance, Option.some.injEq] at hstep
        exact hstep ▸ .polls hroot fun hnone => hready (List.isEmpty_iff.2 hnone)
  | poll turns =>
    simp only [Option.some.injEq] at hstep
    cases turns with
    | zero =>
      simp only [poll, goTo_push, goTo_advance] at hstep
      exact hstep ▸ .listens hroot (.inl rfl)
    | succ turns =>
      cases hready : agenda.ready with
      | nil =>
        simp only [poll, hready, goTo_push, goTo_advance] at hstep
        exact hstep ▸ .listens hroot (.inr hready)
      | cons key ready =>
        cases hfind : agenda.find? key with
        | none =>
          rw [poll_of_missing _ d hready hfind, goTo_world, goTo_withWorld, goTo_push, goTo_advance]
            at hstep
          refine hstep ▸ .skips hroot hready fun call hcall hkey => ?_
          exact absurd (decide_eq_true hkey) (List.find?_eq_none.1 hfind call hcall)
        | some call =>
          rw [poll_of_found _ d hready hfind, goTo_world, goTo_withWorld, goTo_push, goTo_advance]
            at hstep
          have hcall : call ∈ agenda.calls := List.mem_of_find?_eq_some hfind
          have hfound := List.find?_some hfind
          have hkey : call.key = key := of_decide_eq_true hfound
          rw [turn] at hstep
          split at hstep
          next hhanding =>
            refine hstep ▸ .skips hroot hready fun other hother hsame => ?_
            rw [hpunctual.call_eq hother hcall (hsame.trans hkey.symm), hhanding]
          next x work hstate =>
            have hdue := hpunctual.due call hcall x work hstate
            cases hdue with
            | @issued milliseconds hmem heq =>
              dsimp only at hstep
              split at hstep
              next hzero =>
                subst hzero
                exact h.waitingMove_of_over hrunning hcontrol hroot hagenda hready hcall hkey hstate
                  (.inr rfl) hstep.symm
              next =>
                rw [goTo_withWorld] at hstep
                subst hkey
                exact hstep ▸ .setsTimer hroot hready hcall rfl hstate
            | asleep | woken =>
              exact h.waitingMove_of_over hrunning hcontrol hroot hagenda hready hcall hkey hstate
                (.inl rfl) hstep.symm

end WaitingMove

/-! ### What tasks do -/

/-- A task issues a sleep and is suspended. -/
structure Sleeps (m : Machine) (d : DriverId) (x : HandleRef) (milliseconds : Nat)
    (running : Running) (m' : Machine) : Prop where
  inside : m.running = [running]
  new : x = m.world.handles.next
  slept : m'.world.slept d = m.world.slept d ++ [(x, milliseconds)]
  joined : m'.world.joined d = m.world.joined d
  issued : ∀ {agenda}, m.world.agenda = some agenda →
    m'.world.agenda = some (agenda.spawn ⟨m.world.callsMade, d, .holding x (.sleep milliseconds)⟩)
  made : m'.world.callsMade = m.world.callsMade + 1
  owner : m'.world.handleId x = running.id
  back : ∃ fiber, m'.control = .back fiber (.suspended x) ∧ fiber.id = running.id
  queue : ∀ s, m'.world.queue s = m.world.queue s
  parked : ∀ {y fiber}, m'.world.ParkedIn y fiber → m.world.ParkedIn y fiber

/-- A task that may not do more sleeps, or does nothing with the host. -/
theorem ErrandMove.sleeps {running : Running} (h : m.ErrandMove p d m') (hm : m.Sound True)
    (hfree : p.free = false) (hrunning : m.running = [running]) :
    (∃ x milliseconds, m.Sleeps d x milliseconds running m') ∨ m'.world.aside = m.world.aside ∧
    m'.control.coming = 0 := by
  have hparked : ∀ {y fiber}, m'.world.ParkedIn y fiber → m.world.ParkedIn y fiber := h.parkedIn
  have hcode : ∀ {control : Control}, control.IsCode → control.coming = 0 := fun hcode =>
    Control.coming_of fun fiber x heq => by
      subst heq
      exact hcode
  cases h with
  | goesOn pushed htop hcontrol hpushed hless hcode' hnoProgress haside =>
    exact .inr ⟨haside, hcode hcode'⟩
  | enqueues shown htop hcontrol hlabor hbody hposition hs hmay =>
    rw [hfree] at hmay
    cases hmay
  | concludes htop hcontrol hcode' hnoProgress haside => exact .inr ⟨haside, hcode hcode'⟩
  | leaves _ _ _ hexit =>
    refine .inr ⟨World.aside_of_surroundings (surroundings_leave ..),
      Control.coming_of fun fiber x heq => ?_⟩
    rw [leave] at heq
    cases heq
    exact hexit x rfl
  | calls htop hcontrol hlabor htakes hrests =>
    cases hrests hfree with
    | @sleeps _ agenda current milliseconds hagenda hcurrent hkind =>
      have hid : current = running.id := by
        rw [World.currentId, hm.current, hrunning] at hcurrent
        cases hcurrent
        rfl
      refine .inl ⟨_, milliseconds, hrunning, rfl, ?_, ?_, ?_, ?_, ?_, ?_, fun s => ?_, hparked⟩ <;>
        rw [suspendAwait_eq hrunning]
      · change ((m.world.makeHandle current 2).2.mark (.opened _ _)).told _ = _
        rw [World.told_mark, Mark.slept?_opened hkind]
        rfl
      · change ((m.world.makeHandle current 2).2.mark (.opened _ _)).told _ = _
        rw [World.told_mark, Mark.joins?, if_neg (by rw [hkind]; rintro ⟨⟩)]
        exact List.append_nil _
      · intro other hother
        cases hagenda.symm.trans hother
        rfl
      · rfl
      · have hget := World.get?_makeHandle m.world current 2 m.world.handles.next
        rw [if_pos rfl] at hget
        exact (World.handleId_of_get? hget).trans hid
      · exact ⟨_, rfl, rfl⟩
      · rfl

/-- No await is made that waits for the driver. -/
structure SameAwaits (d : DriverId) (m m' : Machine) : Prop where
  slept : m'.world.slept d = m.world.slept d
  joined : m'.world.joined d = m.world.joined d
  reached : m'.world.reached d = m.world.reached d

/-- Either a task issues a sleep in a step, or no await is made that waits for the driver. -/
theorem RunsErrands.sleeps (h : m.RunsErrands p d s rest) (hfree : p.free = false)
    (hstep : m.step? = some m') :
    (∃ x milliseconds running, m.Sleeps d x milliseconds running m') ∨ SameAwaits d m m' := by
  have hm := h.ordinary.sound
  have hclaims : m.world.claims.isSome := (World.isSome_claims _).trans h.agenda
  have hsame : m.running = [] ∨ m'.control.coming = 0 → SameAwaits d m m' := by
    intro hquiet
    have hnone : ∀ {α : Type} {read : Mark → Option α}, Minds read →
        (∀ told : Mark, (∀ x, told.opened? x = none) → read told = none) →
          (∀ x (plan : AwaitPlan), plan.kind.isHosted = false → read (.opened x plan) = none) →
            m'.world.told read = m.world.told read := by
      intro α read hread hunheard hhosted
      rcases hm.tells_hosted hstep hclaims hread hunheard hhosted with heq | ⟨hrunning, hcoming, -⟩
      · exact heq
      · rcases hquiet with hnil | hzero
        · exact absurd hnil hrunning
        · rw [hcoming] at hzero
          cases hzero
    refine ⟨hnone (minds_slept? d) (fun _ h => slept?_of_unheard h d) fun x plan hplain => ?_,
      hnone (minds_joins? d) (fun _ h => joins?_of_unheard h d) fun x plan hplain =>
        if_neg fun hall => ?_,
      hnone (minds_reaches? d) (fun _ h => reaches?_of_unheard h d) fun x plan hplain =>
        if_neg fun hdriver => ?_⟩
    · rw [Mark.slept?]
      split
      next hkind =>
        rw [hkind] at hplain
        cases hplain
      next => rfl
    · rw [AwaitKind.eq_of_all? hall] at hplain
      cases hplain
    · rw [isHosted_of_driver? hdriver] at hplain
      cases hplain
  cases h.errandStep hstep with
  | asks hrunning | goesOn hrunning | hears hrunning | settles hrunning | ends _ hrunning
  | completed hrunning
    | drains _ hrunning | receives _ hrunning => exact .inr (hsame (.inl hrunning))
  | resumes _ hhands | completes _ hhands => exact .inr (hsame (.inl hhands.outside))
  | errandMove hbase hrunning hroot herrandMove =>
    rcases herrandMove.sleeps hm hfree hrunning with ⟨x, milliseconds, hsleeps⟩ | ⟨-, hcoming⟩
    · exact .inl ⟨x, milliseconds, _, hsleeps⟩
    · exact .inr (hsame (.inr hcoming))

end Machine

/-! ### How deadlines come about -/

namespace World

variable {first a b : World} {x y : HandleRef} {d : DriverId} {id : FiberId} {milliseconds : Nat}

theorem sleptSince_append (hlong : (first.slept d).length ≤ (a.slept d).length)
    (hslept : b.slept d = a.slept d ++ [(x, milliseconds)]) :
    sleptSince first b d = sleptSince first a d ++ [(x, milliseconds)] := by
  rw [sleptSince, hslept, List.drop_append_of_le_length hlong]
  rfl

section Same

variable (hslept : b.slept d = a.slept d) (hrecalls : a.Recalls b)
  (hmade : ∀ sleep ∈ a.slept d, a.handles.get? sleep.1 ≠ none)

include hslept hrecalls hmade

theorem timeOf_of_same (first : World) (id : FiberId) :
    timeOf first b d id = timeOf first a d id := by
  rw [timeOf, timeOf, sleptSince, hslept]
  exact sleepOf_congr
    (fun sleep member => hrecalls.handleId (hmade sleep (List.mem_of_mem_drop member))) id

theorem deadline_of_same (first : World) (hx : a.handles.get? x ≠ none) :
    deadline first b d x = deadline first a d x := by
  rw [deadline, deadline, sleptSince, hslept, hrecalls.handleId hx]
  exact sleepOf_congr (fun sleep member =>
    hrecalls.handleId (hmade sleep (List.mem_of_mem_drop (List.mem_filter.1 member).1))) _

end Same

/-- A handle that was made has a smaller number than the next one. -/
theorem index_lt_next (hx : a.handles.get? x ≠ none) : x.index < a.handles.next.index := by
  by_contra hle
  exact hx (List.getElem?_eq_none (Nat.not_lt.1 hle))

section Issued

variable (hlong : (first.slept d).length ≤ (a.slept d).length)
  (hslept : b.slept d = a.slept d ++ [(a.handles.next, milliseconds)]) (hrecalls : a.Recalls b)
  (hmade : ∀ sleep ∈ a.slept d, a.handles.get? sleep.1 ≠ none)

include hlong hslept hrecalls hmade

theorem timeOf_issued : timeOf first b d id = timeOf first a d id + if b.handleId a.handles.next =
    id then milliseconds else 0 := by
  rw [timeOf, timeOf, sleptSince_append hlong hslept, sleepOf_append, sleepOf_singleton]
  congr 1
  exact sleepOf_congr
    (fun sleep member => hrecalls.handleId (hmade sleep (List.mem_of_mem_drop member))) id

theorem deadline_issued_of_made (hx : a.handles.get? x ≠ none) :
    deadline first b d x = deadline first a d x := by
  have hless := index_lt_next hx
  have hnew : sleepsUpTo [(a.handles.next, milliseconds)] x = [] := by
    rw [sleepsUpTo, List.filter_singleton, decide_eq_false (Nat.not_le.2 hless)]
    rfl
  rw [deadline, deadline, sleptSince_append hlong hslept, hrecalls.handleId hx, sleepsUpTo,
    List.filter_append, ← sleepsUpTo, ← sleepsUpTo, hnew, List.append_nil]
  exact sleepOf_congr (fun sleep member =>
    hrecalls.handleId (hmade sleep (List.mem_of_mem_drop (List.mem_filter.1 member).1))) _

/-- The deadline of a sleep that is issued is that much later than what its task has slept for. -/
theorem deadline_issued (howner : b.handleId a.handles.next = id) :
    deadline first b d a.handles.next = timeOf first a d id + milliseconds := by
  have hall : ∀ sleep ∈ sleptSince first b d,
      decide (sleep.1.index ≤ a.handles.next.index) = true := by
    intro sleep member
    rw [sleptSince_append hlong hslept] at member
    rcases List.mem_append.1 member with hmem | hmem
    · exact decide_eq_true (Nat.le_of_lt (index_lt_next (hmade sleep (List.mem_of_mem_drop hmem))))
    · rw [List.mem_singleton.1 hmem]
      exact decide_eq_true (Nat.le_refl _)
  have htime : timeOf first b d id = timeOf first a d id + milliseconds := by
    rw [timeOf_issued hlong hslept hrecalls hmade, if_pos howner]
  rw [deadline, sleepsUpTo, List.filter_eq_self.2 hall, howner, ← htime]
  rfl

end Issued

end World

end Fibers
