import Fibers.Proofs.SuspendedFibers
import Fibers.Proofs.Nesting

/-!
The fates of suspended fibers. A fiber that is parked is unwound in the very step in
which nobody holds its handle any more, and one that is queued in the step in which
nobody owns its scheduler any more. Whatever becomes of a suspended fiber, it is
unwound just if nothing has it afterwards. A fiber is unwound at most once, and it is
nowhere after that.
-/

namespace Fibers

open Asset (cloneOf serialOf begunOf unstartedOf)

namespace World

variable {a b w : World} {fiber : Fiber} {x : HandleRef} {s : SchedulerId}

/-- A fiber of that serial was unwound. -/
def Discarded (w : World) (serial : Nat) : Prop :=
  ∃ id home, .mark (.discarded serial id home) ∈ w.history.toList

theorem Discarded.later {serial : Nat} (h : a.Discarded serial) (hafter : a.Remembers b) :
    b.Discarded serial := by
  obtain ⟨id, home, member⟩ := h
  exact ⟨id, home, hafter.subset member⟩

theorem Discarded.buried {serial : Nat} (h : w.Discarded serial) :
    0 < w.tally (Mark.terminates serial) := by
  obtain ⟨id, home, member⟩ := h
  have hone : Mark.terminates serial (.discarded serial id home) = 1 := if_pos rfl
  have hle := Machine.le_tally member (Mark.terminates serial)
  omega

theorem Unwinds.discarded (h : a.Unwinds fiber b) : b.Discarded fiber.serial := by
  obtain ⟨news, current, hnews, hsub⟩ := h
  refine ⟨fiber.id, fiber.home, ?_⟩
  rw [hnews]
  apply List.mem_append_right
  apply hsub.subset
  rw [Fiber.relics, List.map_cons]
  exact List.mem_cons_self ..

theorem le_worth_of_name {name : String} (h : w.coroutines.get? name = some fiber)
    (f : Asset → Nat) : weigh f fiber.assets ≤ w.worth f := by
  have hle := le_weigh_of_mem (fun fiber => weigh f (Fiber.assets fiber))
    (Names.mem_values_of_get? h)
  rw [worth]
  omega

theorem HasFiber.le_worth (h : w.HasFiber fiber) (f : Asset → Nat) :
    weigh f fiber.assets ≤ w.worth f := by
  cases h with
  | kept hkeeps => exact hkeeps.le_worth f
  | named hname => exact le_worth_of_name hname f

theorem coroutines_start (script : Script) : script.start.coroutines = .empty := by
  obtain ⟨_, _, hstart⟩ := script.exists_start
  rw [hstart]
  rfl

end World

theorem Fiber.weigh_body {fiber : Fiber} (h : fiber.isSuspended = true) :
    0 < weigh (serialOf fiber.serial) fiber.assets := by
  obtain ⟨serial, id, home, stack, state⟩ := fiber
  cases state with
  | unstarted | finished => cases h
  | suspended frames first =>
    simp only [Fiber.assets, FiberState.assets, fiberAssets, weigh_cons, serialOf, begunOf, if_true]
    omega

namespace Machine

variable {m m' : Machine} {fiber : Fiber} {x : HandleRef} {s : SchedulerId} {script : Script}
  {serial : Nat}

/-- How many places hold a clone of a handle: names, frames of running and of suspended
fibers, payloads, calls, those who wait for a driver, and what control brings. -/
def holders (m : Machine) (x : HandleRef) : Nat :=
  m.world.worth (cloneOf x) + weigh (cloneOf x) m.assets

/-- Control is inside of the fiber, which goes on as it was. -/
def Inside (m : Machine) (fiber : Fiber) : Prop :=
  ∃ running below, m.running = running :: below ∧ running.fiber = fiber

/-- Something has the fiber: a handle, a queue or a name, whoever entered it and gets it
back, or control itself. -/
def Has (m : Machine) (fiber : Fiber) : Prop :=
  m.world.HasFiber fiber ∨ m.control.fiber? = some fiber ∨ m.Inside fiber

/-- Wherever a suspended fiber is, it is in the books. -/
theorem Has.weigh_pos (h : m.Has fiber) (hsuspended : fiber.isSuspended = true) :
    0 < m.world.worth (serialOf fiber.serial) + weigh (serialOf fiber.serial) m.assets := by
  have hbody := Fiber.weigh_body hsuspended
  rcases h with hplaced | hback | ⟨running, below, hrunning, rfl⟩
  · have hle := hplaced.le_worth (serialOf fiber.serial)
    omega
  · cases hcontrol : m.control with
    | back other exit =>
      rw [hcontrol] at hback
      cases hback
      simp only [assets, hcontrol, Control.assets, weigh_append]
      omega
    | _ => rw [hcontrol] at hback; cases hback
  · have member : running ∈ m.running := by
      rw [hrunning]
      exact List.mem_cons_self ..
    have hone := le_weigh_assets member (serialOf running.serial)
    simp only [serialOf, begunOf, if_true] at hone
    change 0 < m.world.worth (serialOf running.serial) + weigh (serialOf running.serial) m.assets
    omega

/-- Whoever has a fiber, it was not unwound. -/
theorem Sound.not_discarded (h : m.Sound True) (hhas : m.Has fiber)
    (hsuspended : fiber.isSuspended = true) : ¬m.world.Discarded fiber.serial := by
  intro hdiscarded
  have hburied := hdiscarded.buried
  have hbodies := h.kept.balanced.bodies fiber.serial
  have hbody := Has.weigh_pos hhas hsuspended
  split at hbodies <;> omega

/-- One state comes right after another in a session: by a step, by what the host does, or
when a root action is done. -/
inductive Follows (m : Machine) : Machine → Prop
  | steps {m' : Machine} (h : m.step? = some m') : Follows m m'
  | stirs {w : World} (h : m.world.Stirs w) : Follows m (m.withWorld w)
  | goesOn (hdone : m.Done) (action : Action) :
      Follows m (Script.begin (Script.showOutcome m) action)
  | closes (hdone : m.Done) : Follows m ⟨(Script.showOutcome m).close, [], [], .advance⟩

theorem Follows.leads (h : m.Follows m') : Leads (fun _ => True) m m' := by
  cases h with
  | steps hstep => exact Leads.refl.steps hstep fun _ _ => trivial
  | stirs hstirs => exact Leads.refl.stirs hstirs
  | goesOn hdone action => exact Leads.refl.goesOn hdone action
  | closes hdone => exact Leads.refl.closes hdone

theorem Sound.follows (h : m.Sound True) (hfollows : m.Follows m') : m'.Sound True :=
  h.leads hfollows.leads fun _ _ _ _ => trivial

/-- What becomes of suspended fibers from one state of a session to the next. -/
theorem Sound.losesNone (h : m.Sound True) (hfollows : m.Follows m') :
    ∃ hand, m.world.LosesNone m.control.fiber? m'.world hand ∧
      ∀ fiber, hand = some fiber → fiber.isSuspended = true → m'.Has fiber := by
  have hshown : m.Done → m.control.fiber? = none ∧
      World.LosesNone m.world none (Script.showOutcome m) none := by
    intro hdone
    have hcode := (h.done hdone).2.2
    rw [Script.showOutcome]
    cases hcontrol : m.control with
    | advance => exact ⟨rfl, .refl _⟩
    | raise failure => exact ⟨rfl, .write _ _⟩
    | panicking panic => exact ⟨rfl, .write _ _⟩
    | resumed | back | answer =>
      rw [hcontrol] at hcode
      exact hcode.elim
  have hnobody : ∀ fiber, none = some fiber → fiber.isSuspended = true →
      m'.Has fiber := fun fiber hnone =>
    absurd hnone (Option.some_ne_none fiber).symm
  cases hfollows with
  | steps hstep =>
    obtain ⟨entered, hlosesNone, hinto⟩ :=
      World.turns_losesNone.steps h (fun _ _ _ _ _ _ => .write _ _) hstep
    exact ⟨entered, hlosesNone, fun fiber hentered hsuspended => .inr
      (.inr (hinto fiber hentered hsuspended))⟩
  | @stirs w hstirs =>
    have hlosesNone : World.LosesNone m.world m.control.fiber? w m.control.fiber? := by
      rw [hstirs.rest]
      exact .of_same (.of_same rfl) rfl rfl rfl
    exact ⟨_, hlosesNone, fun fiber hhand _ => .inr (.inl hhand)⟩
  | goesOn hdone action =>
    obtain ⟨hnone, hlosesNone⟩ := hshown hdone
    rw [hnone]
    exact ⟨none, hlosesNone, hnobody⟩
  | closes hdone =>
    obtain ⟨hnone, hlosesNone⟩ := hshown hdone
    rw [hnone]
    exact ⟨none, hlosesNone.trans (World.losesNone_close _), hnobody⟩

theorem Leads.remembers (h : Leads (fun _ => True) m m') (hm : m.Sound True) :
    m.world.Remembers m'.world := by
  have hone : ∀ {a b : Machine}, a.Sound True → a.Follows b → a.world.Remembers b.world := by
    intro a b ha hfollows
    obtain ⟨hand, hlosesNone, -⟩ := ha.losesNone hfollows
    exact hlosesNone.history
  have hlater : ∀ {a : Machine}, Leads (fun _ => True) m a → a.Sound True := fun hleads =>
    hm.leads hleads fun _ _ _ _ => trivial
  induction h with
  | refl => exact .refl _
  | steps hleads hstep _ ih => exact ih.trans (hone (hlater hleads) (.steps hstep))
  | stirs hleads hstirs ih => exact ih.trans (hone (hlater hleads) (.stirs hstirs))
  | goesOn hleads hdone action ih => exact ih.trans (hone (hlater hleads) (.goesOn hdone action))
  | closes hleads hdone ih => exact ih.trans (hone (hlater hleads) (.closes hdone))

/-- What holds where root actions begin, and in every state right after one in which it
holds, holds throughout a session. -/
theorem Visits.follow {P : Machine → Prop} (h : Visits (fun _ => True) script.start m)
    (hbegin : ∀ action, P (Script.begin script.start action))
    (hnext : ∀ a b, a.Sound True → a.Follows b → P a → P b) : P m := by
  obtain ⟨action, hleads⟩ := h
  have hbegun : Visits (fun _ => True) script.start (Script.begin script.start action) :=
    ⟨action, .refl⟩
  have hsound : ∀ {a : Machine}, Leads (fun _ => True) (Script.begin script.start action) a →
      a.Sound True :=
    fun hbefore => (hbegun.leads hbefore).sound fun _ _ _ _ => trivial
  induction hleads with
  | refl => exact hbegin action
  | steps hleads hstep _ ih => exact hnext _ _ (hsound hleads) (.steps hstep) ih
  | stirs hleads hstirs ih => exact hnext _ _ (hsound hleads) (.stirs hstirs) ih
  | goesOn hleads hdone action ih => exact hnext _ _ (hsound hleads) (.goesOn hdone action) ih
  | closes hleads hdone ih => exact hnext _ _ (hsound hleads) (.closes hdone) ih

/-- Only schedulers that somebody owns have something queued. -/
theorem Visits.attended (h : Visits (fun _ => True) script.start m) : m.world.Attended := by
  apply h.follow (P := fun m => m.world.Attended)
  · intro action s hqueue
    exact absurd (World.queue_start script s) hqueue
  · intro a b ha hfollows hattended
    obtain ⟨hand, hlosesNone, -⟩ := ha.losesNone hfollows
    exact hlosesNone.attended hattended

/-! ### When a suspended fiber is unwound -/

/-- What becomes of suspended fibers from one state of a session to the next. -/
structure Fates (m m' : Machine) : Prop where
  /-- A parked fiber whose resumption has not come is unwound just if nobody holds its
  handle any more, and stays otherwise. -/
  parked {x : HandleRef} {cell : HandleCell} {fiber : Fiber} {owner : Owner}
    (hcell : m.world.handles.get? x = some cell) (hslot : cell.slot = .parked fiber owner)
    (hsuspended : fiber.isSuspended = true) (hsame : m'.world.accepted x = m.world.accepted x) :
    0 < m.holders x ∧ (m.world.Unwinds fiber m'.world ↔ m'.holders x = 0) ∧
      (0 < m'.holders x → ∃ after, m'.world.handles.get? x = some after ∧
        after.slot = .parked fiber owner)
  /-- A queued fiber whose turn has not come is unwound just if nobody owns its scheduler
  any more, and stays otherwise. -/
  queued {s : SchedulerId} {fiber : Fiber} {resumption : Resumption}
    (member : .woken fiber resumption ∈ m.world.queue s) (hsuspended : fiber.isSuspended = true)
    (hsame : m'.world.dispatched s = m.world.dispatched s) :
    0 < m.world.owners s ∧ (m.world.Unwinds fiber m'.world ↔ m'.world.owners s = 0) ∧
      (0 < m'.world.owners s → .woken fiber resumption ∈ m'.world.queue s)
  /-- Any suspended fiber is unwound just if nothing has it any more. -/
  left {fiber : Fiber} (h : m.world.HasFiber fiber ∨ m.control.fiber? = some fiber)
    (hsuspended : fiber.isSuspended = true) : m.world.Unwinds fiber m'.world ↔ ¬m'.Has fiber
  /-- No fiber that control is inside of is unwound. -/
  inside {running : Running} (member : running ∈ m.running) : ¬m'.world.Discarded running.serial

theorem Sound.holders_eq (h : m.Sound True) (x : HandleRef) :
    m.holders x = m.world.handles.clones x :=
  (h.kept.balanced.clones x).symm

theorem Sound.holders_of_parked (h : m.Sound True) {cell : HandleCell} {owner : Owner}
    (hcell : m.world.handles.get? x = some cell) (hslot : cell.slot = .parked fiber owner) :
    0 < m.holders x := by
  rw [h.holders_eq, HandleTable.clones, hcell]
  exact (h.kept.orderly.parked x cell fiber owner hcell hslot).2

theorem Sound.fates (h : m.Sound True) (hattended : m.world.Attended) (hfollows : m.Follows m') :
    m.Fates m' := by
  have hafter := h.follows hfollows
  obtain ⟨hand, hlosesNone, hhas⟩ := h.losesNone hfollows
  have hattended' := hlosesNone.attended hattended
  have hexcludes : ∀ {fiber : Fiber}, m.world.Unwinds fiber m'.world → fiber.isSuspended = true →
      ¬m'.Has fiber := by
    intro fiber hunwinds hsuspended hhas
    exact hafter.not_discarded hhas hsuspended hunwinds.discarded
  constructor
  · intro x cell fiber owner hcell hslot hsuspended hsame
    refine ⟨h.holders_of_parked hcell hslot, ?_⟩
    rcases hlosesNone.parked hcell hslot hsuspended with
      ⟨after, hafterCell, hparked⟩ | hmore | ⟨hunwinds, dead, hdead, hzero⟩
    · have hheld := hafter.holders_of_parked hafterCell hparked
      have hhas : m'.Has fiber := .inl (.kept (.parked hafterCell hparked))
      constructor
      · constructor
        · intro hunwinds
          exact absurd hhas (hexcludes hunwinds hsuspended)
        · intro hnone
          exact absurd hnone (Nat.pos_iff_ne_zero.1 hheld)
      · intro _
        exact ⟨after, hafterCell, hparked⟩
    · rw [hsame] at hmore
      exact absurd hmore (Nat.lt_irrefl _)
    · have hnone : m'.holders x = 0 := by
        rw [hafter.holders_eq, HandleTable.clones, hdead]
        exact hzero
      constructor
      · exact iff_of_true hunwinds hnone
      · intro hheld
        exact absurd hnone (Nat.pos_iff_ne_zero.1 hheld)
  · intro s fiber resumption member hsuspended hsame
    refine ⟨hattended s (List.ne_nil_of_mem member), ?_⟩
    rcases hlosesNone.queued member hsuspended with hstays | hmore | ⟨hunwinds, hclosed⟩
    · have howned := hattended' s (List.ne_nil_of_mem hstays)
      have hhas : m'.Has fiber := .inl (.kept (.queued hstays))
      constructor
      · constructor
        · intro hunwinds
          exact absurd hhas (hexcludes hunwinds hsuspended)
        · intro hnone
          exact absurd hnone (Nat.pos_iff_ne_zero.1 howned)
      · intro _
        exact hstays
    · rw [hsame] at hmore
      exact absurd hmore (Nat.lt_irrefl _)
    · constructor
      · exact iff_of_true hunwinds hclosed
      · intro howned
        exact absurd hclosed (Nat.pos_iff_ne_zero.1 howned)
  · intro fiber haround hsuspended
    constructor
    · intro hunwinds
      exact hexcludes hunwinds hsuspended
    · intro hnot
      rcases hlosesNone.around haround hsuspended with hplaced | hhand | hunwinds
      · exact absurd (.inl hplaced) hnot
      · exact absurd (hhas fiber hhand hsuspended) hnot
      · exact hunwinds
  · rintro running member ⟨id, home, hmark⟩
    cases hfollows with
    | steps hstep => exact serial_ne_of_discarded h hstep hmark member rfl
    | stirs => exact hafter.serial_ne (World.Discarded.buried ⟨id, home, hmark⟩) member rfl
    | goesOn hdone =>
      rw [hdone.1] at member
      cases member
    | closes hdone =>
      rw [hdone.1] at member
      cases member

/-! ### Fibers that were unwound -/

/-- A fiber ends or is unwound at most once. -/
theorem Sound.terminates_le (h : m.Sound True) (serial : Nat) :
    m.world.tally (Mark.terminates serial) ≤ 1 := by
  have hbodies := h.kept.balanced.bodies serial
  split at hbodies <;> omega

/-- A fiber that was unwound is nowhere, now or later. -/
theorem Sound.gone (h : m.Sound True) (hdiscarded : m.world.Discarded serial)
    (hleads : Leads (fun _ => True) m m') : (∀ running ∈ m'.running, running.serial ≠ serial) ∧
      ∀ fiber, fiber.isSuspended = true → m'.Has fiber → fiber.serial ≠ serial := by
  have hafter : m'.Sound True := h.leads hleads fun _ _ _ _ => trivial
  have hlater := hdiscarded.later (hleads.remembers h)
  constructor
  · intro running member
    exact hafter.serial_ne hlater.buried member
  · rintro fiber hsuspended hhas rfl
    exact hafter.not_discarded hhas hsuspended hlater

end Machine

end Fibers
