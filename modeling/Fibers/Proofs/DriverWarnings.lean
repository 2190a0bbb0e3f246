import Fibers.Proofs.Chronicle
import Fibers.Proofs.Fates

/-!
Warnings of drivers. A driver warns when what it delivers is refused: a call is over and
its fiber cannot be resumed, or one of those who wait for all calls cannot be. Nobody
else writes such a warning, and a driver writes one for each refusal.
-/

namespace Fibers

namespace World

/-- How many warnings there are of fibers that drivers could not resume. -/
def losses (w : World) : Nat := w.history.toList.countP Happening.isLoss

variable {w w' : World}

theorem losses_write (w : World) (happening : Happening) :
    losses { w with history := w.history.push happening } =
      w.losses + if happening.isLoss then 1 else 0 := by
  simp [losses, List.countP_append, List.countP_cons]

theorem losses_tell_loss (w : World) {event : Event} (h : event.isLoss = true) :
    (w.tell event).losses = w.losses + 1 := by
  refine (losses_write w (.event event)).trans ?_
  rw [Happening.isLoss, h]
  rfl

theorem losses_of_adds (h : w.Adds (fun news => news.countP Happening.isLoss = 0) w') :
    w'.losses = w.losses := by
  obtain ⟨news, hnews, hnone, -⟩ := h
  rw [losses, hnews, List.countP_append, hnone, losses, Nat.add_zero]

/-- No operation of programs or of run loops warns of a loss. -/
theorem unremarkable_losses : Unremarkable fun news => news.countP Happening.isLoss = 0 where
  nil := rfl
  append hfirst hsecond := by
    rw [List.countP_append, hfirst, hsecond]
  single hloss _ := by
    rw [List.countP_singleton, hloss]
    rfl

end World

namespace Machine

variable {byHand : Prop} {m m' : Machine} {frames : List Frame} {fault : SchedulerFault}

/-- A driver warns just where what it delivered was refused, and once then. -/
theorem Sound.losses (h : m.Sound byHand) (hstep : m.step? = some m') :
    m'.world.losses = m.world.losses ∨
      ∃ frame frames fault, m.top = frame :: frames ∧ frame.Loses m.control fault := by
  by_cases hloses : ∃ frame frames fault, m.top = frame :: frames ∧ frame.Loses m.control fault
  · exact .inr hloses
  · have hreturns : ∀ {name failure news}, TellsReturn name failure news →
      news.countP Happening.isLoss = 0 := by
      rintro name failure _ ⟨shown, hshows, rfl⟩
      cases hshows <;> rfl
    obtain ⟨entered, hadds, -⟩ := (World.turns_adds World.unremarkable_losses hreturns).steps h
      (fun frame frames fault event htop hlost => absurd ⟨frame, frames, fault, htop, hlost⟩ hloses)
      hstep
    exact .inl (World.losses_of_adds hadds)

/-- A call whose fiber could not be resumed is over, and the driver goes on. -/
theorem step_of_callLost (hm : m.Sound byHand) {d : DriverId} {key : Nat} {fiber : FiberId}
    (htop : m.top = .completing d key fiber :: frames)
    (hcontrol : m.control = .answer (.error fault)) :
    m.step? = some (m.goTo frames
      (((m.world.tell (.callLost fiber fault.message)).updateAgenda fun agenda => agenda.remove
        key).callOver d) .advance) := by
  rw [hm.step?_of_top htop, react?.eq_def]
  simp only [goTo_control, hcontrol]
  rw [completed]
  simp only [goTo_world, withWorld_eq, goTo_goTo, goTo_top, goTo_advance]

/-- A waiter that could not be resumed is passed over, and the driver goes on with the others. -/
theorem step_of_waiterLost (hm : m.Sound byHand) {d : DriverId} {fiber : FiberId}
    {waiters : List HandleRef} (htop : m.top = .driving d (.resuming fiber waiters) :: frames)
    (hcontrol : m.control = .answer (.error fault)) (hd : (m.world.driver? d).isSome)
    (hagenda : m.world.agenda.isSome) :
    m.step? = some (m.goTo (.driving d (.settle waiters) :: frames)
      (m.world.tell (.waiterLost fiber fault.message)) .advance) := by
  obtain ⟨driver, hdriver⟩ := Option.isSome_iff_exists.1 hd
  obtain ⟨agenda, hsome⟩ := Option.isSome_iff_exists.1 hagenda
  rw [hm.step?_of_top htop, react?.eq_def]
  simp only [stepDriver?, goTo_control, goTo_world, hcontrol, hdriver, hsome]
  simp only [goTo_world, withWorld_eq, push_eq, goTo_goTo, goTo_top, goTo_advance]

end Machine

end Fibers
