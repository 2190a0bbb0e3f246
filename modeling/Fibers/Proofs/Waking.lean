import Fibers.Proofs.Deadlines

/-!
Sleepers wake. Sleeps come back in the order of their deadlines, each of them once, and the
host cannot let the loop of a driver wait forever for one of them. So a driver whose tasks
only sleep wakes all of them in order and is done.
-/

namespace Fibers

namespace World

/-- The handles of the sleeps that were issued since. -/
def sleepersSince (first w : World) (d : DriverId) : List HandleRef :=
  (sleptSince first w d).map Prod.fst

end World

/-- What a loop that waits does apart from what the host makes it do: it turns to the calls
that are ready, and when none is left or it has had its turns it listens again. -/
def DriverPhase.patience (agenda : Agenda) : DriverPhase → Nat
  | .listen => 1
  | .poll turns => if turns = 0 ∨ agenda.ready = [] then 2 else 0
  | _ => 0

theorem patience_poll_le (agenda : Agenda) (turns : Nat) :
    (DriverPhase.poll turns).patience agenda ≤ 2 := by
  rw [DriverPhase.patience]
  split
  · exact Nat.le_refl _
  · exact Nat.zero_le _

theorem HostCall.holding_of_claim (call : HostCall) {key : Nat} {d : DriverId} {x : HandleRef}
    (h : call.claim = (key, d, some x)) : ∃ work, call.state = .holding x work := by
  obtain ⟨number, driver, state⟩ := call
  cases state with
  | holding y work =>
    cases h
    exact ⟨work, rfl⟩
  | handing => cases h

namespace Machine

variable {m m' : Machine} {first w : World} {p : Permit} {d : DriverId} {s : SchedulerId}
  {rest : List Frame} {x y : HandleRef} {fiber : Fiber} {running : Running} {agenda : Agenda}

/-! ### Sleeps that come back -/

/-- How the sleeps came back so far that were issued since. -/
structure Wakings (first : World) (d : DriverId) (m : Machine) : Prop where
  held : ∀ {x}, m.InHand d x → x ∈ first.sleepersSince m.world d
  returning : ∀ {x}, m.returning? = some x → x ∈ first.sleepersSince m.world d
  returned : ∀ x ∈ first.returnedSince m.world, x ∈ first.sleepersSince m.world d ∧
    first.deadline m.world d x ≤ m.world.clock ∧ m.world.awaited x = [.unit]
  order : (first.returnedSince m.world).Pairwise fun x y => first.deadline m.world d x ≤
    first.deadline m.world d y
  waits : ∀ x ∈ first.sleepersSince m.world d,
    x ∈ first.returnedSince m.world ∨ m.InHand d x ∨ m.returning? = some x
  once : (first.returnedSince m.world).Nodup
  distinct : (first.sleepersSince m.world d).Nodup
  long : (first.told Mark.returns?).length ≤ (m.world.told Mark.returns?).length

theorem Sound.made_of_sleeper (hm : m.Sound True) (hx : x ∈ first.sleepersSince m.world d) :
    m.world.handles.get? x ≠ none := by
  obtain ⟨sleep, member, rfl⟩ := List.mem_map.1 hx
  exact hm.made_of_slept sleep (List.mem_of_mem_drop member)

/-- An await that came back came back with that for good. -/
theorem Sound.awaited_step (hm : m.Sound True) (hstep : m.step? = some m') {resumption : Resumption}
    (h : m.world.awaited x = [resumption]) : m'.world.awaited x = [resumption] := by
  have hgrows : [resumption] <+: m'.world.awaited x := by
    rw [← h]
    exact World.Remembers.told_prefix ((Follows.steps hstep).leads.remembers hm) _
  exact (hgrows.eq_of_length_le ((hm.step hstep).awaited_le x)).symm

/-- The handle of a sleep that is issued is the only one that the driver comes by. -/
theorem Sleeps.inHand {milliseconds : Nat} (hsleeps : m.Sleeps d x milliseconds running m')
    (herrands : m.RunsErrands p d s rest) (hline : m'.line d = []) (hy : m'.InHand d y) :
    m.InHand d y ∨ y = x := by
  obtain ⟨agenda, hagenda⟩ := Option.isSome_iff_exists.1 herrands.agenda
  cases hy with
  | call hclaims hclaim =>
    rw [World.claims, hsleeps.issued hagenda] at hclaims
    cases hclaims
    change _ ∈ (agenda.calls ++ [_]).map HostCall.claim at hclaim
    rw [List.map_append] at hclaim
    rcases List.mem_append.1 hclaim with hold | hnew
    · exact .inl (.call (by rw [World.claims, hagenda]; rfl) hold)
    · cases List.mem_singleton.1 hnew
      exact .inr rfl
  | lined member =>
    rw [hline] at member
    cases member

section Step

variable (h : Wakings first d m) (hclock : OnTime first d s rest m)
  (herrands : m.RunsErrands p d s rest) (herrands' : m'.RunsErrands p d s rest)
  (hstep : m.step? = some m') (hgoes : ¬m.RunsOut d m')

include h hclock herrands herrands' hstep hgoes

theorem Wakings.sleeps {milliseconds : Nat} (hsleeps : m.Sleeps d x milliseconds running m') :
    Wakings first d m' := by
  have hm := herrands.ordinary.sound
  have hrecalls := herrands.recalls hstep hgoes
  obtain rfl := hsleeps.new
  obtain ⟨fiber, hback, hid⟩ := hsleeps.back
  obtain ⟨base, ran, -, -, -, -, hheld⟩ := herrands'.stage_of_back hback
  obtain ⟨agenda, hagenda⟩ := Option.isSome_iff_exists.1 herrands.agenda
  have hsame : m.world.clock = m'.world.clock := by
    rw [World.clock, World.clock, hsleeps.issued hagenda, hagenda]
    rfl
  have hdeadline : ∀ {y}, y ∈ first.sleepersSince m.world d →
      first.deadline m'.world d y = first.deadline m.world d y := fun hy =>
    World.deadline_issued_of_made hclock.long hsleeps.slept hrecalls hm.made_of_slept
      (hm.made_of_sleeper hy)
  have hsleepers : first.sleepersSince m'.world d = first.sleepersSince m.world d ++
      [m.world.handles.next] := by
    rw [World.sleepersSince, World.sleptSince_append hclock.long hsleeps.slept, List.map_append]
    rfl
  have hnot : m'.returning? = none := returning?_eq_none fun resumption heq => by
    rw [hback] at heq
    cases heq
  rcases hm.returning_step hstep with ⟨hnone, htold⟩ | ⟨y, -, hcode, -⟩
  · have hreturned : first.returnedSince m'.world = first.returnedSince m.world := by
      rw [World.returnedSince, htold, World.returnedSince]
    have hline : m'.line d = [] := herrands.line_step herrands' hstep hsleeps.joined hclock.line
    refine ⟨fun hx => ?_, fun hx => ?_, fun y hy => ?_, ?_, fun y hy => ?_, hreturned ▸ h.once, ?_,
      htold ▸ h.long⟩
    · rw [hsleepers]
      rcases hsleeps.inHand herrands hline hx with hbefore | rfl
      · exact List.mem_append_left _ (h.held hbefore)
      · exact List.mem_append_right _ (List.mem_singleton_self _)
    · rw [hnot] at hx
      cases hx
    · obtain ⟨hmem, hle, hawaited⟩ := h.returned y (hreturned ▸ hy)
      exact ⟨hsleepers ▸ List.mem_append_left _ hmem, by rw [hdeadline hmem, ← hsame]; exact hle,
        hm.awaited_step hstep hawaited⟩
    · rw [hreturned]
      refine h.order.imp_of_mem fun hx hy hle => ?_
      rw [hdeadline (h.returned _ hx).1, hdeadline (h.returned _ hy).1]
      exact hle
    · rw [hsleepers] at hy
      rw [hreturned]
      rcases List.mem_append.1 hy with hold | hnew
      · rcases h.waits y hold with hback | hx | hx
        · exact .inl hback
        · rcases herrands.inHand_step hstep hgoes hx with hafter | ⟨outcome, stack, w, hhands⟩
          · exact .inr (.inl hafter)
          · have houtside := hhands.outside
            rw [hsleeps.inside] at houtside
            cases houtside
        · rw [hnone] at hx
          cases hx
      · cases List.mem_singleton.1 hnew
        exact .inr (.inl (hheld _ rfl).2)
    · rw [hsleepers]
      refine List.nodup_append.2 ⟨h.distinct, List.nodup_singleton _, fun y hy z hz hyz => ?_⟩
      have hmade := hm.made_of_sleeper hy
      rw [hyz, List.mem_singleton.1 hz] at hmade
      exact Nat.lt_irrefl _ (World.index_lt_next hmade)
  · rw [hback] at hcode
    exact hcode.elim

theorem Wakings.stays (hsame : SameAwaits d m m') (hticks : Ticks first d s rest m m') :
    Wakings first d m' := by
  have hm := herrands.ordinary.sound
  have hrecalls := herrands.recalls hstep hgoes
  have hdeadline : ∀ {y}, y ∈ first.sleepersSince m.world d →
      first.deadline m'.world d y = first.deadline m.world d y := fun hy =>
    World.deadline_of_same hsame.slept hrecalls hm.made_of_slept first (hm.made_of_sleeper hy)
  have hsleepers : first.sleepersSince m'.world d = first.sleepersSince m.world d := by
    rw [World.sleepersSince, World.sleptSince, hsame.slept, World.sleepersSince, World.sleptSince]
  have hheld : ∀ {y}, m'.InHand d y → m.InHand d y := fun hy =>
    hm.inHand_back hstep
      (hm.made_of_reached (hsame.reached ▸ herrands'.ordinary.hosted.reached_of_inHand hy)) hy
  have hwaits : ∀ {y}, m.InHand d y → m'.InHand d y ∨ m'.returning? = some y := by
    intro y hy
    rcases herrands.inHand_step hstep hgoes hy with hafter | ⟨outcome, stack, w, hhands⟩
    · exact .inl hafter
    · obtain ⟨fiber, hparks⟩ := herrands.parksFor hhands.held hhands.advances
      have harrives := hhands.arrives hm hstep hparks
      obtain ⟨plan, frames, -, -, htop, -⟩ := harrives.once
      exact .inr (returning?_eq_some.2 ⟨outcome, plan, frames, harrives.resumed, htop⟩)
  have hbefore : ∀ y ∈ first.returnedSince m.world, y ∈ first.sleepersSince m'.world d ∧
      first.deadline m'.world d y ≤ m'.world.clock ∧ m'.world.awaited y = [.unit] := by
    intro y hy
    obtain ⟨hmem, hle, hawaited⟩ := h.returned y hy
    exact ⟨hsleepers ▸ hmem, by rw [hdeadline hmem]; exact Nat.le_trans hle hticks.later,
      hm.awaited_step hstep hawaited⟩
  have horder : (first.returnedSince m.world).Pairwise fun x y => first.deadline m'.world d x ≤
      first.deadline m'.world d y := by
    refine h.order.imp_of_mem fun hx hy hle => ?_
    rw [hdeadline (h.returned _ hx).1, hdeadline (h.returned _ hy).1]
    exact hle
  have hheld' : ∀ {y}, m'.InHand d y → y ∈ first.sleepersSince m'.world d :=
    fun hy => hsleepers ▸ h.held (hheld hy)
  have hreturning' : ∀ {y}, m'.returning? = some y → y ∈ first.sleepersSince m'.world d := fun hy =>
    hsleepers ▸ h.held (hticks.returning hy).1
  rcases hm.returning_step hstep with ⟨hnone, htold⟩ | ⟨x, hx, hcode, htold⟩
  · have hreturned : first.returnedSince m'.world = first.returnedSince m.world := by
      rw [World.returnedSince, htold, World.returnedSince]
    refine ⟨hheld', hreturning', hreturned ▸ hbefore, hreturned ▸ horder, fun y hy => ?_,
      hreturned ▸ h.once, hsleepers ▸ h.distinct, htold ▸ h.long⟩
    rw [hreturned]
    rcases h.waits y (hsleepers ▸ hy) with hback | hy | hy
    · exact .inl hback
    · exact .inr (hwaits hy)
    · rw [hnone] at hy
      cases hy
  · have hreturned : first.returnedSince m'.world = first.returnedSince m.world ++ [x] := by
      rw [World.returnedSince, htold, List.drop_append_of_le_length h.long, World.returnedSince]
    obtain ⟨hnow, hunit⟩ := hclock.returning hx
    have hmem := h.returning hx
    obtain ⟨resumption, plan, frames, hresumed, htop⟩ := returning?_eq_some.1 hx
    have hawaited : m'.world.awaited x = [.unit] := by
      cases hunit.symm.trans hresumed
      obtain ⟨w, next, hnext, -, honce⟩ := hm.returns_once htop hresumed
      cases hstep.symm.trans hnext
      exact honce .refl
    refine ⟨hheld', hreturning', fun y hy => ?_, ?_, fun y hy => ?_, ?_, hsleepers ▸ h.distinct, ?_⟩
    · rw [hreturned] at hy
      rcases List.mem_append.1 hy with hold | hnew
      · exact hbefore y hold
      · cases List.mem_singleton.1 hnew
        exact ⟨hsleepers ▸ hmem, by rw [hdeadline hmem, hnow]; exact hticks.later, hawaited⟩
    · rw [hreturned, List.pairwise_append]
      refine ⟨horder, List.pairwise_singleton _ _, fun y hy z hz => ?_⟩
      rw [List.mem_singleton.1 hz, hdeadline (h.returned y hy).1, hdeadline hmem, hnow]
      exact (h.returned y hy).2.1
    · rw [hreturned]
      rcases h.waits y (hsleepers ▸ hy) with hback | hy | hy
      · exact .inl (List.mem_append_left _ hback)
      · exact .inr (hwaits hy)
      · cases hx.symm.trans hy
        exact .inl (List.mem_append_right _ (List.mem_singleton_self _))
    · rw [hreturned]
      refine List.nodup_append.2 ⟨h.once, List.nodup_singleton _, fun y hy z hz hyz => ?_⟩
      have hback := (h.returned y hy).2.2
      rw [hyz, List.mem_singleton.1 hz, hm.awaited_nil htop] at hback
      cases hback
    · rw [htold, List.length_append]
      exact Nat.le_add_right_of_le h.long

theorem Wakings.step (hfree : p.free = false) : Wakings first d m' := by
  rcases herrands.sleeps hfree hstep with ⟨x, milliseconds, running, hsleeps⟩ | hsame
  · exact h.sleeps hclock herrands herrands' hstep hgoes hsleeps
  · exact h.stays hclock herrands herrands' hstep hgoes hsame
      (hclock.ticks herrands hstep hgoes hfree hsame)

end Step

/-- The host's choice brings nobody back. -/
theorem Wakings.reorders (h : Wakings first d m) (hreorders : m.world.Reorders w) :
    Wakings first d (m.withWorld w) := by
  cases hreorders with
  | same => exact h
  | @sorts agenda agenda' hagenda hsorts =>
    have hclock := (World.Reorders.sorts hagenda hsorts).clock
    have hheld : ∀ {x}, (m.withWorld (m.world.hosting agenda')).InHand d x ↔ m.InHand d x :=
      inHand_of_stirs (World.Reorders.sorts hagenda hsorts).stirs
    refine ⟨fun hx => h.held (hheld.1 hx), h.returning, fun x hx => ?_, h.order, fun x hx => ?_,
      h.once, h.distinct, h.long⟩
    · obtain ⟨hmem, hle, hawaited⟩ := h.returned x hx
      exact ⟨hmem, Nat.le_trans hle (Nat.le_of_eq hclock.symm), hawaited⟩
    · exact (h.waits x hx).imp_right (Or.imp_left hheld.2)

/-! ### Nobody waits forever -/

/-- What the host and a loop that waits have to do at most before a sleep is over. -/
def patience (m : Machine) : Nat :=
  match m.world.agenda, m.root with
  | some agenda, .driving _ phase :: _ => agenda.patience + phase.patience agenda
  | _, _ => 0

theorem patience_of_driving {phase : DriverPhase} (hagenda : m.world.agenda = some agenda)
    (hroot : m.root = .driving d phase :: rest) :
    m.patience = agenda.patience + phase.patience agenda := by
  rw [patience, hagenda, hroot]

/-- Where the driver's loop waits. -/
theorem RunsErrands.listens (h : m.RunsErrands p d s rest) (hwaits : m.Waits) :
    ∃ phase, m.root = .driving d phase :: rest ∧ phase.Listens := by
  obtain ⟨e, phase, frames, hroot, hlistens⟩ := hwaits
  cases h.stage with
  | loop _ hroot' =>
    cases hroot.symm.trans hroot'
    exact ⟨phase, hroot, hlistens⟩
  | answered hbase _ hroot' =>
    cases hbase with
    | drain | resuming =>
      cases hroot.symm.trans hroot'
      exact hlistens.elim
    | completing => cases hroot.symm.trans hroot'
  | drains _ _ hroot' | back _ _ hroot' | inside _ _ hroot' => cases hroot.symm.trans hroot'

/-- A loop that waits in one step and in the next has less to do. -/
theorem OnTime.patience_lt (h : OnTime first d s rest m) (herrands : m.RunsErrands p d s rest)
    (hstep : m.step? = some m') (hwaits : m.Waits) (hwaits' : m'.Waits) :
    m'.patience < m.patience := by
  obtain ⟨phase, hroot, hlistens⟩ := herrands.listens hwaits
  obtain ⟨agenda, hagenda⟩ := Option.isSome_iff_exists.1 herrands.agenda
  obtain ⟨hrunning, hcontrol⟩ := herrands.listening hroot hlistens
  have hpunctual := h.punctual hagenda
  have hafter : ∀ {phase' : DriverPhase} {w : World} {agenda' : Agenda}, w.agenda = some agenda' →
      (m.goTo (.driving d phase' :: rest) w .advance).patience =
      agenda'.patience + phase'.patience agenda' :=
    fun hagenda' => patience_of_driving (by rw [goTo_world]; exact hagenda')
      (goTo_running_eq_nil _ _ _ _ hrunning).2
  cases herrands.waitingMove hagenda hpunctual hroot hlistens hstep with
  | hears =>
    obtain ⟨e, phase', frames, hroot', hlistens'⟩ := hwaits'
    rw [(goTo_running_eq_nil _ _ _ _ hrunning).2] at hroot'
    cases hroot'
    exact hlistens'.elim
  | elapses hroot hready helapse =>
    rw [patience_of_driving hagenda hroot, hafter rfl]
    exact Nat.add_lt_add_right (Agenda.patience_elapse hready helapse) _
  | polls hroot hready =>
    have hturns : (DriverPhase.poll World.turnsPerPoll).patience agenda = 0 :=
      if_neg (not_or.2 ⟨nofun, hready⟩)
    rw [patience_of_driving hagenda hroot, hafter hagenda, hturns]
    exact Nat.lt_succ_self _
  | listens hroot hnone =>
    rw [patience_of_driving hagenda hroot, hafter hagenda, DriverPhase.patience,
      DriverPhase.patience, if_pos hnone]
    exact Nat.lt_succ_self _
  | @skips turns key ready hroot hready =>
    have hturn := patience_poll_le (agenda.later ready) turns
    have hless := Agenda.patience_later hready
    rw [patience_of_driving hagenda hroot, hafter rfl]
    omega
  | @setsTimer turns key milliseconds ready call x hroot hready hcall hkey hstate =>
    have hturn := patience_poll_le ((agenda.later ready).sleep key milliseconds) turns
    have hless := Agenda.patience_sleep hready hcall hkey hstate
    rw [patience_of_driving hagenda hroot, hafter rfl]
    omega
  | wakes hroot hready hcall hkey hstate hover hhands =>
    obtain ⟨fiber, hparks⟩ := herrands.parksFor hhands.held hcontrol
    obtain ⟨owned, -, hloop, -⟩ := hhands.inside herrands.ordinary.sound hstep hparks
    obtain ⟨e, phase', frames, hroot', -⟩ := hwaits'
    cases hloop.symm.trans hroot'

/-- The host's choice saves the loop nothing. -/
theorem patience_reorders (hreorders : m.world.Reorders w) :
    (m.withWorld w).patience = m.patience := by
  cases hreorders with
  | same => rfl
  | @sorts agenda agenda' hagenda hsorts =>
    have hready : agenda'.ready = [] ↔ agenda.ready = [] := by
      rw [← List.length_eq_zero_iff, hsorts.ready.length_eq, List.length_eq_zero_iff]
    have hphase : ∀ phase : DriverPhase, phase.patience agenda' = phase.patience agenda := by
      intro phase
      cases phase with
      | poll turns => simp only [DriverPhase.patience, hready]
      | _ => rfl
    rw [patience, patience, hagenda]
    change (match some agenda', m.root with
      | some agenda, .driving _ phase :: _ => agenda.patience + phase.patience agenda
      | _, _ => 0) = _
    split
    next hsome hroot =>
      cases hsome
      rw [hroot, hsorts.patience]
      exact congrArg _ (hphase _)
    next hnone =>
      split
      next hsome hroot => exact absurd hroot (hnone _ _ _ _ rfl)
      next => rfl

/-- So the host does not let the loop wait forever, whichever call has its turn first. -/
theorem serviced_of_onTime {course : Nat → Machine} {n : Nat} (hflows : Flows World.Reorders course)
    (hall : ∀ k ≥ n, (course k).RunsErrands p d s rest ∧ OnTime first d s rest (course k)) :
    Serviced course n := by
  intro k hk key e x hpending
  by_contra hnone
  have hwaits : ∀ j ≥ k, (course j).Waits ∧ (course j).Pending key e x := fun j hj => by
    by_contra hnot
    exact hnone ⟨j, hj, not_and_or.1 hnot⟩
  have hless : ∀ j ≥ k, (course j).step? = some (course (j + 1)) → (course (j + 1)).patience <
      (course j).patience :=
    fun j hj hstep => by
      obtain ⟨herrands, htime⟩ := hall j (Nat.le_trans hk hj)
      exact htime.patience_lt herrands hstep (hwaits j hj).1
        (hwaits (j + 1) (Nat.le_succ_of_le hj)).1
  refine not_falling (f := fun j => (course j).patience) (n := k) (fun j hj => ?_) fun i hi => ?_
  · rcases hflows.next j with hstep | ⟨w, hreorders, heq⟩
    · exact Nat.le_of_lt (hless j hj hstep)
    · exact Nat.le_of_eq (by rw [heq, patience_reorders hreorders])
  · obtain ⟨j, hj, hstep⟩ := hflows.goesOn i fun j hj => by
      obtain ⟨herrands, htime⟩ := hall j (Nat.le_trans hk (Nat.le_trans hi hj))
      refine herrands.progress.resolve_right fun ⟨_, _, hidle⟩ => ?_
      -- The call is to have its turn at once, or its timer is set.
      obtain ⟨claims, hclaims, hclaim⟩ := (hwaits j (Nat.le_trans hi hj)).2
      obtain ⟨agenda, hagenda, rfl⟩ := Option.map_eq_some_iff.1 hclaims
      obtain ⟨call, member, hclaim⟩ := List.mem_map.1 hclaim
      obtain ⟨hready, htimers⟩ := hidle hagenda
      obtain ⟨work, hstate⟩ := call.holding_of_claim hclaim
      cases (htime.punctual hagenda).due call member x work hstate with
      | issued hmem | woken hmem => rw [hready] at hmem; cases hmem
      | asleep hmem => rw [htimers] at hmem; cases hmem
    exact ⟨j, hj, hless j (Nat.le_trans hi hj) hstep⟩

/-! ### Whole runs -/

/-- All sleeps came back that were issued since, each of them once and with success, in the
order of their deadlines. -/
structure WokeInOrder (first last : World) (d : DriverId) : Prop where
  all : (first.returnedSince last).Perm (first.sleepersSince last d)
  once : (first.returnedSince last).Nodup
  order : (first.returnedSince last).Pairwise fun x y => first.deadline last d x ≤
    first.deadline last d y
  success : ∀ x ∈ first.sleepersSince last d, last.awaited x = [.unit]

section Begun

variable (h : Begun m m' d rest) (hwaiters : m.world.waiters d = [])

include h hwaiters

theorem Begun.not_inHand (hx : m'.InHand d x) : False := by
  have member := h.waiters_of_inHand hx
  rw [hwaiters] at member
  cases member

/-- When the loop begins, the clock stands at its beginning and nobody has slept. -/
theorem Begun.onTime (hfresh : ∀ entry ∈ m.world.queue s, ∃ id body, entry = .fresh id body) :
    OnTime m.world d s rest m' := by
  have hworld := h.world
  have hclock : m'.world.clock = 0 := by rw [hworld]; rfl
  have hslept : m.world.sleptSince m'.world d = [] := by
    rw [hworld]
    exact List.drop_length ..
  refine ⟨fun hagenda => ?_, fun hrunning => ?_, fun _ hx => (h.not_inHand hwaiters hx).elim,
    fun entry member => ?_, fun _ => hclock, fun hx => ?_, h.line.trans hwaiters, ?_, ?_⟩
  · rw [hworld] at hagenda
    cases hagenda
    exact Agenda.punctual_empty _ _
  · rw [h.running] at hrunning
    cases hrunning
  · rw [hworld] at member
    obtain ⟨id, body, rfl⟩ := hfresh entry member
    exact ⟨id, body, rfl, by rw [World.timeOf, hslept]; rfl⟩
  · rw [returning?_of_advance h.control] at hx
    cases hx
  · rintro (⟨result, hanswer⟩ | ⟨phase, hroot, hlistens⟩)
    · rw [h.control] at hanswer
      cases hanswer
    · cases h.root.symm.trans hroot
      exact hlistens.elim
  · rw [hworld]
    exact Nat.le_refl _

theorem Begun.wakings : Wakings m.world d m' := by
  have hworld := h.world
  have hsleepers : m.world.sleepersSince m'.world d = [] := by
    rw [World.sleepersSince, World.sleptSince, hworld]
    exact congrArg (List.map Prod.fst) (List.drop_length ..)
  have hreturned : m.world.returnedSince m'.world = [] := by
    rw [hworld]
    exact List.drop_length ..
  refine ⟨fun hx => (h.not_inHand hwaiters hx).elim, fun hx => ?_, ?_, ?_, ?_, ?_, ?_, ?_⟩
  · rw [returning?_of_advance h.control] at hx
    cases hx
  · rw [hreturned]
    intro y hy
    cases hy
  · rw [hreturned]
    exact .nil
  · rw [hsleepers]
    intro y hy
    cases hy
  · rw [hreturned]
    exact .nil
  · rw [hsleepers]
    exact .nil
  · rw [hworld]
    exact Nat.le_refl _

end Begun

/-- When the run is over, nothing is in the hands of the driver. -/
theorem RunsErrands.not_inHand_of_runsOut (h : m.RunsErrands p d s rest) (hends : m.RunsOut d m')
    (hline : m.line d = []) : ¬m.InHand d x := by
  intro hx
  obtain ⟨driver, n, frames, -, -, hd, hflight, -⟩ := h.ordinary.sound.ends_of_runsOut hends
  cases hx with
  | @call claims key hclaims hclaim =>
    have hcount := h.ordinary.tallied.inFlight d
    have hzero : m.world.inFlight d = 0 := by
      rw [World.inFlight, hd]
      exact hflight
    have hpos : 0 < claims.countP fun claim => claim.2.1 = d :=
      List.countP_pos_iff.2 ⟨_, hclaim, decide_eq_true rfl⟩
    rw [hclaims, Option.getD_some, hzero] at hcount
    rw [← hcount] at hpos
    cases hpos
  | lined member =>
    rw [hline] at member
    cases member

/-- So all sleeps have come back by then. -/
theorem Wakings.wokeInOrder (h : Wakings first d m) (hclock : OnTime first d s rest m)
    (herrands : m.RunsErrands p d s rest) (hends : m.RunsOut d m') :
    WokeInOrder first m'.world d := by
  have hm := herrands.ordinary.sound
  have hnoProgress := hm.noProgress_of_runsOut hends
  obtain ⟨driver, n, frames, -, hcontrol, -⟩ := hm.ends_of_runsOut hends
  have hslept : m'.world.slept d = m.world.slept d :=
    hnoProgress.toNoArrivals.told (minds_slept? d).heeds
  have htold : m'.world.told Mark.returns? = m.world.told Mark.returns? :=
    hnoProgress.toNoArrivals.told notes_returns?.heeds
  have hsleepers : first.sleepersSince m'.world d = first.sleepersSince m.world d := by
    rw [World.sleepersSince, World.sleptSince, hslept, World.sleepersSince, World.sleptSince]
  have hreturned : first.returnedSince m'.world = first.returnedSince m.world := by
    rw [World.returnedSince, htold, World.returnedSince]
  have hback : ∀ x ∈ first.sleepersSince m.world d,
      x ∈ first.returnedSince m.world := fun x hx => by
    rcases h.waits x hx with hback | hheld | hreturning
    · exact hback
    · exact absurd hheld (herrands.not_inHand_of_runsOut hends hclock.line)
    · rw [returning?_eq_none fun resumption heq => by rw [hcontrol] at heq; cases heq] at hreturning
      cases hreturning
  refine ⟨?_, hreturned ▸ h.once, ?_, fun x hx => ?_⟩
  · rw [hreturned, hsleepers, List.perm_ext_iff_of_nodup h.once h.distinct]
    exact fun x => ⟨fun hx => (h.returned x hx).1, hback x⟩
  · rw [hreturned]
    refine h.order.imp_of_mem fun hx hy hle => ?_
    rw [World.deadline_of_same hslept hnoProgress.toNoArrivals.recalls hm.made_of_slept first
      (hm.made_of_sleeper (h.returned _ hx).1),
      World.deadline_of_same hslept hnoProgress.toNoArrivals.recalls
      hm.made_of_slept first (hm.made_of_sleeper (h.returned _ hy).1)]
    exact hle
  · rw [hnoProgress.toNoArrivals.awaited]
    exact (h.returned x (hback x (hsleepers ▸ hx))).2.2

/-- Tasks that only sleep wake in the order of their deadlines, whichever of those that are
due at once is first: every sleep comes back once, and all tasks finish. -/
theorem sleepers_wake_in_order {course : Nat → Machine} {script : Script}
    (h : (course 0).AboutToDrive script p d s) (hfree : p.free = false)
    (hfresh : ∀ entry ∈ (course 0).world.queue s, ∃ id body, entry = .fresh id body)
    (hwaiters : (course 0).world.waiters d = []) (hflows : Flows World.Reorders course) :
    ∃ k, Completes course k d s ∧ WokeInOrder (course 0).world (course (k + 1)).world d := by
  obtain ⟨k, rest, hcompletes, herrands, hclock, hwakings⟩ := h.completes_keeping
    (P := fun rest m => OnTime (course 0).world d s rest m ∧ Wakings (course 0).world d m) hflows
    World.Reorders.stirs
    (fun _ hbegun _ => ⟨hbegun.onTime hwaiters hfresh, hbegun.wakings hwaiters⟩)
    (fun {rest k} herrands hboth hgoes => by
      rcases hflows.next k with hstep | ⟨w, hreorders, heq⟩
      · have herrands' := herrands.step hstep hgoes
        exact ⟨hboth.1.step herrands herrands' hstep hgoes hfree,
          hboth.2.step hboth.1 herrands herrands' hstep hgoes hfree⟩
      · exact heq ▸ ⟨hboth.1.reorders hreorders, hboth.2.reorders hreorders⟩)
    fun hall => serviced_of_onTime hflows fun k hk => ⟨(hall k hk).1, (hall k hk).2.1.1⟩
  exact ⟨k, hcompletes, hwakings.wokeInOrder hclock herrands hcompletes.ends⟩

/-- Two tasks sleep twice each, until the same time in all. -/
def fourSleeps : Action :=
  .scope [.newDriver 0, .enqueue 0 [.sleep 0 3 .raise, .sleep 0 3 .raise],
    .enqueue 0 [.sleep 0 5 .raise, .sleep 0 1 .raise], .drive 0] false

/-- The state of that program after some steps, with one scheduler. -/
def sleepingTwice (steps : Nat) : Machine :=
  (Script.begin Script.single.start fourSleeps).settle steps

/-- After four steps the driver is about to run; after 67 all four sleeps are over. -/
theorem four_sleeps_end_in_order :
    (sleepingTwice 4).AboutToDrive Script.single ⟨0, false⟩ ⟨0⟩ ⟨0⟩ ∧
      Flows World.Reorders (sleepingTwice 4).settle ∧
      (∃ k, Completes (sleepingTwice 4).settle k ⟨0⟩ ⟨0⟩ ∧
        WokeInOrder (sleepingTwice 4).world ((sleepingTwice 4).settle (k + 1)).world ⟨0⟩) ∧
      (sleepingTwice 66).RunsOut ⟨0⟩ (sleepingTwice 67) ∧
        ((sleepingTwice 4).world.returnedSince (sleepingTwice 67).world).map
          ((sleepingTwice 4).world.deadline (sleepingTwice 67).world ⟨0⟩) = [3, 5, 6, 6] := by
  have hqueue : (sleepingTwice 4).world.queue ⟨0⟩ =
      [.fresh ⟨1⟩ [.sleep 0 3 .raise, .sleep 0 3 .raise],
      .fresh ⟨2⟩ [.sleep 0 5 .raise, .sleep 0 1 .raise]] := by with_unfolding_all rfl
  have hnone : (sleepingTwice 4).world.waiters ⟨0⟩ = [] := by with_unfolding_all rfl
  have habout : (sleepingTwice 4).AboutToDrive Script.single ⟨0, false⟩ ⟨0⟩ ⟨0⟩ :=
    { visits := visits_settle _ fourSleeps 4
      drives := by with_unfolding_all rfl
      root := by with_unfolding_all rfl
      outside := by with_unfolding_all rfl
      position := by decide
      fed := by decide
      enqueues := fun t ht => by
        have hs : (sleepingTwice 4).world.schedulerAt 0 = some ⟨0⟩ := by decide
        exact Option.some.inj (ht.symm.trans hs)
      queued := fun entry member => by
        rw [hqueue] at member
        rcases List.mem_pair.1 member with rfl | rfl <;> change Action.isErrandCode ⟨0,
          false⟩ _ = true <;> decide
      waiting := .inl hnone }
  have hfresh : ∀ entry ∈ (sleepingTwice 4).world.queue ⟨0⟩, ∃ id body,
      entry = .fresh id body := fun entry member => by
    rw [hqueue] at member
    rcases List.mem_pair.1 member with rfl | rfl <;> exact ⟨_, _, rfl⟩
  have hflows : Flows World.Reorders (sleepingTwice 4).settle := flows_settle (fun _ => .same) _
  exact ⟨habout, hflows, sleepers_wake_in_order habout rfl hfresh hnone hflows,
    ⟨by with_unfolding_all rfl,
      [.actions [] [], .actions [] []], by with_unfolding_all rfl, by with_unfolding_all rfl⟩,
    by decide +kernel⟩

end Machine

end Fibers
