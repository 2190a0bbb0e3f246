import Fibers.Proofs.Refusals
import Fibers.Proofs.Pledges
import Fibers.Text.Terminated

/-!
Foreign awaits and the calls that pass something to their handles. A call that passes a
pointer or a message to a handle for the first time succeeds, from wherever it is made, and
nothing else in the session is told of it than that. The await that made the handle returns
it, once its scheduler has nothing queued anymore, and nothing else ever comes of that await.
-/

namespace Fibers

namespace World

variable {w w' a b u : World} {x y : HandleRef} {cell : HandleCell}
  {slot : Slot Fiber Owner Resumption} {s : SchedulerId}

theorem queue_own (w : World) (s t : SchedulerId) : (w.own s).queue t = w.queue t := by
  rw [own, queue_updateScheduler, queue_eq]
  split
  · cases w.scheduler? t <;> rfl
  · rfl

end World

namespace Machine

variable {byHand : Prop} {m m' n : Machine} {frames : List Frame} {s t : SchedulerId}
  {x y : HandleRef} {cell : HandleCell} {resumption : Resumption} {fiber : Fiber} {w : World}
  {script : Script}

/-! ### Passing -/

theorem perform_of_comesTo {action inner : Action} (h : action.ComesTo m.world inner) :
    m.perform action = m.perform inner := by
  induction h with
  | refl => rfl
  | wrapped hs _ ih => rw [perform, hs, ih]

/-- An action of a level that has the turn is performed. -/
theorem step_of_comesTo (hm : m.Sound byHand) {action inner : Action}
    (hnext : m.nextAction? = some action) (haction : action.ComesTo m.world inner)
    (hguard : ∀ value, inner ≠ .guard value) :
    ∃ frames, m.step? = some ((m.goTo frames m.world .advance).perform inner) := by
  have hfirst : ∀ value, action ≠ .guard value := by
    rintro value rfl
    cases haction
    exact hguard value rfl
  obtain ⟨frames, hstep⟩ := hm.step?_of_action hnext hfirst
  exact ⟨frames, by rwa [perform_of_comesTo (by rwa [goTo_world])] at hstep⟩

/-- A call that passes something delivers it to the handle, which is taken from its slot or
cloned before that. -/
structure Delivering (m n : Machine) (s : SchedulerId) (x : HandleRef) (name : String)
    (resumption : Resumption) : Prop where
  call : ∃ frames w, n = m.goTo (.answering s (.foreignResume name) :: frames) w .advance
  step : m.step? = some (n.deliver s x resumption)
  noProgress : m.world.NoProgress n.world
  current : n.world.current = m.world.current
  queue : ∀ t, n.world.queue t = m.world.queue t
  made : ∃ cell, n.world.handles.get? x = some cell ∧ 0 < cell.clones

theorem delivering_of_comesTo {action inner : Action} {name : String} {position : Nat}
    {slot : String} (keep : Bool) (hm : m.Sound byHand) (hnext : m.nextAction? = some action)
    (haction : action.ComesTo m.world inner) (hguard : ∀ value, inner ≠ .guard value)
    (hs : m.world.schedulerAt position = some s) (hx : m.world.slots.get? slot = some x)
    (hinner : ∀ n : Machine, n.world = m.world → n.perform inner = n.foreignResume name s
      (some slot) keep resumption) :
    ∃ n, m.Delivering n s x name resumption := by
  obtain ⟨frames, hstep⟩ := step_of_comesTo hm hnext haction hguard
  rw [hinner _ (goTo_world ..), foreignResume, goTo_world] at hstep
  cases htake : foreignHandle? m.world (some slot) keep with
  | none => simp [foreignHandle?, World.takeHandle?, hx] at htake
  | some taken =>
    obtain ⟨y, u⟩ := taken
    rw [htake] at hstep
    simp only [goTo_withWorld, goTo_push] at hstep
    have hpart : y = x ∧ u.schedulers = m.world.schedulers ∧ u.current = m.world.current := by
      simp only [foreignHandle?, World.takeHandle?, hx, Option.bind_some, Option.map_some,
        Option.some.injEq] at htake
      split at htake <;> cases htake <;> exact ⟨rfl, rfl, rfl⟩
    obtain ⟨rfl, hschedulers, hcurrent⟩ := hpart
    obtain ⟨hshift, hpositions⟩ := shift_foreignHandle htake
    have hown : u.Shift [] (u.own s) [.share s] :=
      u.shift_own (by rw [← hs, World.schedulerAt, World.schedulerAt, hpositions])
    have hboth := hshift.trans (hown.gain [.loose (.handle y)])
    obtain ⟨cell, hcell, hclones⟩ := (hm.kept.gain hboth).balanced.clones_pos (x := y)
      (by simp only [List.cons_append, List.nil_append, weigh_cons, Asset.cloneOf, if_true]; omega)
    refine ⟨_, ⟨_, _, rfl⟩, hstep, hm.noProgress_of_shift hboth, ?_, fun t => ?_, cell, ?_, hclones⟩
    · rw [goTo_world]
      exact hcurrent
    · rw [goTo_world, World.queue_own, World.queue, World.scheduler?, hschedulers]
      rfl
    · rw [goTo_world]
      exact hcell

theorem Passes.delivering {name : String} (h : m.Passes s x name resumption) (hm : m.Sound byHand) :
    ∃ n, m.Delivering n s x name resumption := by
  cases h with
  | pointer keep value hnext haction hs hx | message keep message hnext haction hs hx =>
    refine delivering_of_comesTo keep hm hnext haction (by rintro _ ⟨⟩) hs hx fun n hn => ?_
    rw [perform, withScheduler, hn, hs]

theorem Delivers.awaited (h : Delivers n s x cell resumption m') (y : HandleRef) :
    m'.world.awaited y = n.world.awaited y := by
  have hlaid : ∀ slot (event : Event), event.IsQuiet →
      ((((n.world.setSlot x slot).mark (.accepted x resumption)).release [.handle x]).tell
        event).awaited y = n.world.awaited y := fun slot event hquiet => by
    have hafter :=
      (World.noArrivals_release ((n.world.setSlot x slot).mark (.accepted x resumption))
      [.handle x]).trans (.tell _ hquiet.1)
    rw [hafter.awaited, World.awaited_mark, World.awaited, World.told_setSlot]
    exact List.append_nil _
  cases h with
  | stored event hslot hquiet => exact hlaid _ event hquiet
  | queued fiber event hslot hcurrent hquiet =>
    exact (World.told_append _ _ _ rfl).trans (hlaid _ event hquiet)
  | dispatched fiber event hslot hcurrent hquiet =>
    refine (told_enter _ _ _ (Mark.heeds_awaited? y)).trans ((World.told_mark ..).trans ?_)
    exact (List.append_nil _).trans (hlaid .spent event hquiet)
  | refused fault event hslot hother hquiet =>
    exact ((World.noArrivals_release n.world _).trans (.tell _ hquiet.1)).awaited y

/-- What a message of the foreign side says. It ends at its first zero byte, and its bytes read
as the text. A message that is missing says that a call failed. -/
def MessageSays : Option (List UInt8) → String → Prop
  | none, text => text = "host call failed"
  | some bytes, text => Text.Reads (bytes.takeWhile (· ≠ 0)) text.toList

/-- How an await comes back in a world: with the pointer, and the last error stays what it
was, or with null, and the last error is what the message says. -/
inductive Yields (w : World) : Resumption → World → Prop
  | pointer (value : Nat) {u : World} (hlast : u.lastError = w.lastError) :
      Yields w (.value (.scalar (.pointer value)))
        (u.emit "got" (if value = 0 then foreignNull u else .record [("value", .nat value)]))
  | message (message : Option (List UInt8)) {text : String} (htext : MessageSays message text)
      {u : World} (hlast : u.lastError = some text) :
      Yields w (.error (foreignError message)) (u.emit "got" (foreignNull u))

/-- The await that made the handle returns what was passed to it, and no other await is told
of anything. -/
structure Returns (m : Machine) (x : HandleRef) (resumption : Resumption) (m' : Machine) :
    Prop where
  step : m.step? = some m'
  place : ∃ frames w, m.top = .awaiting x .foreign :: frames ∧ m' = m.goTo frames w .advance
  yields : Yields m.world resumption m'.world
  opened : m.world.opened x = [.foreign]
  accepted : m.world.accepted x = [resumption]
  once : m.world.awaited x = []
  awaited : ∀ y, m'.world.awaited y = if y = x then [resumption] else m.world.awaited y
  others : ∀ y, m'.world.accepted y = m.world.accepted y

/-- The error of a foreign message is told as what the message says. -/
theorem messageSays_foreignError (message : Option (List UInt8)) :
    MessageSays message (Text.withoutNul (foreignError message).oneLine) := by
  cases message with
  | none =>
    have hplain : ∀ c ∈ "host call failed".toList, c ≠ Char.ofNat 0 := by simp
    exact Text.withoutNul_eq_self hplain
  | some bytes =>
    have htext : Text.withoutNul (foreignError (some bytes)).oneLine = Text.ofTerminated bytes :=
      Text.withoutNul_ofTerminated bytes
    rw [htext]
    exact Text.reads_ofBytes _

/-- A foreign await comes back as a foreign call. -/
theorem concludeAwait_foreign (m : Machine) (x : HandleRef) (hforeign : resumption.IsForeign) :
    ∃ (w : World) (failure : Option Failure) (shown : Datum),
      m.concludeAwait x .foreign resumption = m.goTo m.top (w.emit "got" shown) .advance ∧
      w.history = ((m.world.mark (.awaited x resumption)).mark
          (.returned "await" failure)).history ∧
      Yields m.world resumption (w.emit "got" shown) := by
  cases hforeign with
  | pointer value =>
    refine ⟨_, none, _, ?_, rfl, .pointer value
      (u := (m.world.mark (.awaited x (.value (.scalar (.pointer value))))).foreignReturned "await")
      rfl⟩
    rw [concludeAwait, withWorld_eq]
    simp only [yieldAwait, AwaitPlan.foreign, yieldPointer, goTo_world, goTo_withWorld,
      goTo_emit, goTo_advance]
    rfl
  | message message =>
    refine ⟨_, some (foreignError message), _, ?_, ?_, .message message
      (messageSays_foreignError message)
      (u := (m.world.mark (.awaited x (.error (foreignError message)))).foreignFailed "await"
        (foreignError message))
      rfl⟩
    · rw [concludeAwait, withWorld_eq]
      simp only [failAwait, AwaitPlan.foreign, goTo_world, goTo_withWorld, goTo_emit, goTo_advance]
    · rfl

theorem Visits.returns (h : Visits Action.IsForeign script.start m)
    (hresumed : m.control = .resumed resumption) : ∃ x m', m.Returns x resumption m' := by
  have hpublic := h.public_of_foreign
  have hidle : ∀ action, m.nextAction? = some action →
      action.core.IsForeign := fun action hnext => by
    simp [nextAction?, hresumed] at hnext
  have hforeign := h.isForeign hidle
  obtain ⟨x, plan, frames, htop, -, howes⟩ := hpublic.faithful.resumed resumption hresumed
  obtain rfl : plan = .foreign := hforeign.top (.awaiting x plan) (htop ▸ List.mem_cons_self ..)
  have hresumption : resumption.IsForeign := by
    have := hforeign.control
    rwa [hresumed] at this
  obtain ⟨w, failure, shown, heq, hhistory, hyields⟩ :=
    concludeAwait_foreign (m.goTo frames m.world m.control) x hresumption
  have htold : ∀ {α : Type} (read : Mark → Option α), (w.emit "got" shown).told read =
      (m.world.told read ++ (read (.awaited x resumption)).toList) ++
      (read (.returned "await" failure)).toList := fun read => by
    rw [World.told_emit, World.told, hhistory, ← World.told, World.told_mark, World.told_mark]
    rfl
  refine ⟨x, _, ?_, ⟨frames, _, htop, rfl⟩, hyields, ?_, howes.accepted, howes.awaited,
    fun y => ?_, fun y => ?_⟩
  · rw [hpublic.public.step?_of_top htop, hresumed]
    rw [hresumed] at heq
    exact congrArg some (heq.trans (by rw [goTo_goTo, goTo_top]; rfl))
  · exact hpublic.titled x .foreign (.inr ⟨_, .top, htop ▸ List.mem_cons_self ..⟩)
  · refine (htold (Mark.awaited? y)).trans ((List.append_nil _).trans ?_)
    rw [Mark.awaited?]
    by_cases hyx : y = x
    · rw [if_pos hyx.symm, if_pos hyx, hyx]
      exact congrArg (· ++ [resumption]) howes.awaited
    · rw [if_neg (Ne.symm hyx), if_neg hyx]
      exact List.append_nil _
  · exact (htold (Mark.accepted? y)).trans ((List.append_nil _).trans (List.append_nil _))

/-! ### Driving -/

/-- The register function of the await on the handle runs in a task of the scheduler. -/
def Registers (m : Machine) (s : SchedulerId) (x : HandleRef) : Prop :=
  ∃ running ∈ m.running, running.home = some s ∧ .registering x .foreign ∈ running.frames

/-- Without coroutines every fiber belongs to a scheduler. -/
theorem scheduler_of_entered {inFiber : Bool} {home : Option SchedulerId} {frames : List Frame}
    (h : w.Entered False inFiber home frames) : ∃ s, home = some s := by
  unfold World.Entered at h
  split at h
  · exact h.1.elim
  · exact ⟨_, h.2.1⟩
  · exact h.elim

/-- Every handle was made by an await of a task of some scheduler. -/
theorem VisitsHome.registers (h : VisitsHome script.start m)
    (hmade : m.world.handles.get? x ≠ none) :
    ∃ a s, VisitsHome script.start a ∧ LeadsHome a m ∧ a.Registers s x := by
  obtain ⟨action, hleads⟩ := h
  have hbefore : VisitsHome script.start (Script.begin script.start action) := ⟨action, .refl⟩
  induction hleads with
  | refl =>
    refine absurd ?_ hmade
    change script.start.handles.get? x = none
    rw [World.handles_start]
    rfl
  | @steps a b hleads hstep hallowed hhome ih =>
    have ha := (hbefore.leads hleads).visits
    have hb := hbefore.leads (hleads.steps hstep hallowed hhome)
    have hsame : a.world.handles.get? x ≠ none → ∃ c s, VisitsHome script.start c ∧ LeadsHome c b ∧
        c.Registers s x :=
      fun hmade => by
        obtain ⟨c, s, hc, hca, hregisters⟩ := ih hmade
        exact ⟨c, s, hc, hca.steps hstep hallowed hhome, hregisters⟩
    have hpublic := ha.public_of_foreign
    have hfares := hpublic.public.fares (ha.isForeign hallowed) hstep
    rcases hfares.makes hpublic.public hpublic.faithful.toHeedful with
      hmakes | ⟨y, running, below, hmakes, -, hrunning, member⟩
    · exact hsame (hmade ∘ (hmakes x).2)
    · by_cases hxy : x = y
      · subst hxy
        have hnested := hb.visits.public_of_foreign.public.nested
        rw [hrunning] at hnested
        have hentered : b.world.Entered False (!below.isEmpty) running.home
            (stackUnder b.root below) := hnested.2.1
        obtain ⟨s, hhome⟩ := scheduler_of_entered hentered
        exact ⟨b, s, hb, .refl, running, hrunning ▸ List.mem_cons_self .., hhome, member⟩
      · exact hsame (hmade ∘ (hmakes x hxy).2)
  | @goesOn a hleads hdone next ih =>
    obtain ⟨c, s, hc, hca, hregisters⟩ :=
      ih fun hnone => hmade (Between.shows.noArrivals.get?_eq_none.2 hnone)
    exact ⟨c, s, hc, hca.goesOn hdone next, hregisters⟩

/-- The task whose await registers waits in the register function for another handle, and
nothing was passed to that one. -/
def HeldUp (m : Machine) (s : SchedulerId) (x : HandleRef) : Prop :=
  ∃ y cell fiber, m.world.handles.get? y = some cell ∧ cell.slot = .parked fiber (.scheduler s) ∧
    .registering x .foreign ∈ fiber.frames ∧ m.world.opened y = [.foreign] ∧ m.world.accepted y = []

/-- Once a scheduler has nothing queued at the root, the await of a task of it has returned
what was passed to its handle, unless its register function still waits for something. -/
theorem Registers.settles {a : Machine} (hx : a.Registers s x) (ha : VisitsHome script.start a)
    (hleads : LeadsHome a m) (hroot : m.AtRoot) (halive : 0 < m.world.owners s)
    (hqueue : m.world.queue s = []) (haccepted : m.world.accepted x ≠ []) :
    m.world.awaited x = m.world.accepted x ∨ m.HeldUp s x := by
  obtain ⟨running, member, hhome, hregistering⟩ := hx
  have hm := (ha.leads hleads).visits
  rcases Pledged.leads (.inside member hhome (.inl hregistering)) ha hleads halive with
    hpledged | hawaited
  · obtain ⟨y, cell, fiber, hcell, hslot, hopened, hnone, rfl | hheld⟩ :=
      hpledged.at_root hm hroot hqueue
    · exact absurd hnone haccepted
    · exact .inr ⟨y, cell, fiber, hcell, hslot, hheld, hopened, hnone⟩
  · obtain ⟨honce, hwithin⟩ := hm.public_of_foreign.faithful.tended.once x
    refine .inl (hwithin.eq_of_length_le ?_)
    have := List.length_pos_iff.2 hawaited
    omega

/-- A run at the root comes to its end. -/
theorem Visits.drives {max : Option Nat} {rest : List Frame}
    (h : Visits Action.IsForeign script.start m) (hrunning : m.running = [])
    (hroot : m.root = .draining s 0 max :: rest) :
    ServesInOrder s max rest (m.world.queue s) 0 m.world m ∧ ∃ a ran, Runs rest m a ∧
      a.Returned ran rest := by
  have hsound : m.Sound True := h.public_of_foreign.sound fun _ _ _ _ => trivial
  have hloop : m.Looping s 0 max rest := .inl hroot
  have hidle : ∀ action, m.nextAction? = some action →
      action.core.IsForeign := fun action hnext => by
    have htop : m.top = .draining s 0 max :: rest := by rw [top, hrunning]; exact hroot
    simp [nextAction?, htop] at hnext
  have hbegun : World.Serviced s (m.world.queue s) m.world m.world [] [] :=
    ⟨(List.append_nil _).symm, (List.append_nil _).symm, List.append_nil _⟩
  refine ⟨hloop.servesInOrder hsound (fun _ _ => Nat.zero_le _) hbegun rfl, ?_⟩
  have hgoes : ∀ a, Runs rest m a → (∃ ran, a.Returned ran rest) ∨ a.root ≠ rest ∧
      ∃ b, a.step? = some b := fun a hruns => by
    obtain ⟨served, arrived, -, -, hlooping | ⟨hreturned, -⟩⟩ :=
      hloop.serviced hsound (fun _ _ => Nat.zero_le _) hruns
    · exact .inr ⟨hlooping.root_ne, hlooping.progress (hruns.sound hsound)⟩
    · exact .inl ⟨_, hreturned⟩
  obtain ⟨a, hruns, ran, hreturned⟩ := h.comes (h.isForeign hidle) hgoes
  exact ⟨a, ran, hruns, hreturned⟩

/-! ### Sessions -/

/-- A task that is parked in the slot is of the scheduler. -/
def ofScheduler (s : SchedulerId) : Slot Fiber Owner Resumption → Bool
  | .parked fiber _ => fiber.home = some s
  | _ => true

/-- There is only one scheduler to pass handles to, and only its tasks are parked. -/
def OneHome (m : Machine) (s : SchedulerId) : Prop :=
  (∀ place ∈ m.world.positions, ∀ t ∈ place.scheduler, t = s) ∧ ∀ cell ∈ m.world.handles.cells,
  ofScheduler s cell.slot = true

instance (m : Machine) (s : SchedulerId) : Decidable (m.OneHome s) :=
  inferInstanceAs (Decidable (_ ∧ _))

theorem passesHome_of_oneHome (h : m.OneHome s) : m.PassesHome := by
  intro t x name resumption hpasses cell fiber owner hcell hslot
  have hcells := h.2 cell (List.mem_of_getElem? hcell)
  rw [hslot, ofScheduler, decide_eq_true_eq] at hcells
  have hposition : ∀ {position}, m.world.schedulerAt position = some t → t = s := fun hs => by
    rw [World.schedulerAt, Option.bind_eq_some_iff] at hs
    obtain ⟨place, hplace, ht⟩ := hs
    exact h.1 place (List.mem_of_getElem? hplace) t ht
  cases hpasses with
  | pointer _ _ _ _ hs | message _ _ _ _ hs => rw [hcells, hposition hs]

/-- Steps of the foreign side with one scheduler. -/
theorem LeadsHome.settle (m : Machine) (fuel : Nat)
    (h : ∀ i < fuel, (m.settle i).OneHome s ∧ ∀ action ∈ (m.settle i).nextAction?,
      action.core.IsForeign) :
    LeadsHome m (m.settle fuel) := by
  induction fuel with
  | zero => exact .refl
  | succ fuel ih =>
    have hbefore := ih fun i hi => h i (Nat.lt_succ_of_lt hi)
    obtain ⟨hone, hforeign⟩ := h fuel (Nat.lt_succ_self _)
    rw [← settle_add]
    cases hstep : (m.settle fuel).step? with
    | none => rwa [settle_of_atRest hstep]
    | some next =>
      have hnext : (m.settle fuel).settle 1 = next := by simp only [Machine.settle, hstep]
      rw [hnext]
      exact hbefore.steps hstep hforeign (passesHome_of_oneHome hone)

end Machine

end Fibers
