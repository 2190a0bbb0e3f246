import Fibers.Proofs.Guards

/-!
Discarding suspended fibers, in every session. Whatever is released, releasing comes to
an end and changes nothing but handles and the history; a suspended fiber is unwound with
its last owner, once, and never runs again; its guards go in the reverse order in which
they were pushed. A park tells that nobody holds the handle just if the fiber goes with
that very park.
-/

namespace Fibers

/-- What letting an asset go shows, under some weight. -/
def Asset.showing (g : Relic → Nat) : Asset → Nat
  | .loose debris => debris.relic?.elim 0 g
  | _ => 0

theorem Asset.bare_showing (g : Relic → Nat) : Bare (showing g) where
  kept _ := rfl
  shares _ := rfl
  posts _ := rfl
  unstarted _ := rfl
  stacked _ _ := rfl

namespace HandleTable

/-- All that was to be released, or was in slots, is shown once or is still in its slot. -/
theorem release_shows (table : HandleTable) (work : List Debris) (g : Relic → Nat) :
    (table.release work).1.worth (Asset.showing g) + weigh g (table.release work).2 =
      table.worth (Asset.showing g) + weigh (Asset.showing g) (loosen work) := by
  have hworth := release_worth table work (Asset.bare_showing g) fun _ => rfl
  have hshown : weigh (Asset.showing g) (loosen ((table.release work).2.map Relic.debris)) =
      weigh g (table.release work).2 := by
    rw [loosen, List.map_map, weigh_map]
    apply weigh_congr
    intro relic _
    cases relic <;> rfl
  rwa [hshown] at hworth

/-- The last clone of a handle brings the fiber that is parked there. -/
theorem release_last {table : HandleTable} {x : HandleRef} {cell : HandleCell}
    (hcell : table.get? x = some cell) (hlast : cell.clones ≤ 1) :
    (cell.debris.filterMap Debris.relic?).Sublist (table.release [.handle x]).2 := by
  rw [release]
  split
  next hnone =>
    rw [hcell] at hnone
    cases hnone
  next other hother =>
    obtain rfl : cell = other := Option.some.inj (hcell.symm.trans hother)
    rw [if_pos hlast, List.append_nil]
    exact relics_sublist _ _

/-- A clone that is not the last one brings nothing. -/
theorem release_shared {table : HandleTable} {x : HandleRef} {cell : HandleCell}
    (hcell : table.get? x = some cell) (hshared : 1 < cell.clones) :
    table.release [.handle x] = (table.put x { cell with clones := cell.clones - 1 }, []) := by
  rw [release]
  split
  next hnone =>
    rw [hcell] at hnone
    cases hnone
  next other hother =>
    obtain rfl : cell = other := Option.some.inj (hcell.symm.trans hother)
    rw [if_neg (Nat.not_le.2 hshared), release]

end HandleTable

namespace World

variable {w : World} {x : HandleRef} {cell : HandleCell} {fiber : Fiber} {owner : Owner}
  {s : SchedulerId}

/-- What releasing comes to. -/
structure Releases (w : World) (work : List Debris) : Prop where
  /-- It is over after as many pieces as there were to let go and in the slots. -/
  ends : ∃ n ≤ w.handles.load + work.length, ∃ relics : List Relic,
    HandleTable.Unwinding.next^[n] ⟨w.handles, work, []⟩ = ⟨(w.release work).handles, [], relics⟩ ∧
      (w.release work).history.toList = w.history.toList ++ relics.map
        (Relic.happening w.currentId) ∧
        ∀ g, (w.release work).handles.worth (Asset.showing g) + weigh g relics =
          w.handles.worth (Asset.showing g) + weigh (Asset.showing g) (loosen work)
  /-- Only handles and the history change. -/
  rest : w.release work =
    { w with handles := (w.release work).handles, history := (w.release work).history }

theorem releases (w : World) (work : List Debris) : w.Releases work where
  ends := by
    obtain ⟨n, hle, hends⟩ := w.handles.release_ends work []
    refine ⟨n, hle, (w.handles.release work).2, ?_, ?_, ?_⟩
    · rw [release_eq]
      exact hends
    · rw [release_eq]
      simp
    · intro g
      rw [release_eq]
      exact w.handles.release_shows work g
  rest := by rw [release_eq]

/-- A park tells that nobody holds the handle just if the fiber that is parked is unwound,
and otherwise the fiber stays in the handle. -/
structure ParkTells (w : World) (id : FiberId) (x : HandleRef) (fiber : Fiber) (owner : Owner)
    (w' : World) : Prop where
  tells : ∃ news, w'.history.toList = w.history.toList ++ news ∧
    (.event (.unheld id) ∈ news ↔ w.Unwinds fiber w')
  stays : w.Unwinds fiber w' ∨ ∃ after, w'.handles.get? x = some after ∧
    after.slot = .parked fiber owner ∧ 0 < after.clones

theorem not_unwinds_of_same {w' : World} (h : w'.history = w.history) : ¬w.Unwinds fiber w' := by
  rintro ⟨news, current, hnews, hsub⟩
  rw [h, List.self_eq_append_right] at hnews
  rw [hnews] at hsub
  cases hsub

theorem park_tells (hcell : w.handles.get? x = some cell) (hslot : cell.slot = .pending)
    (hsuspended : fiber.isSuspended = true) (owner : Owner) :
    w.ParkTells cell.id x fiber owner (w.park x fiber owner).2 := by
  have hparks : w.park x fiber owner =
      (none, ((if cell.clones ≤ 1 then w.tell (.unheld cell.id) else w).setSlot x
      (.parked fiber owner)).release [.handle x]) := by
    rw [park, hcell]
    simp only [hslot, Slot.park]
  rw [hparks]
  by_cases hlast : cell.clones ≤ 1
  · rw [if_pos hlast]
    have htold : (w.tell (.unheld cell.id)).handles.get? x = some cell := hcell
    have hlaid := get?_setSlot htold (.parked fiber owner) x
    rw [if_pos rfl] at hlaid
    have hsub := HandleTable.release_last hlaid hlast
    have hdebris : HandleCell.debris { cell with slot := .parked fiber owner } = fiber.debris := rfl
    rw [hdebris, Fiber.relics_debris hsuspended] at hsub
    have hunwinds := Unwinds.of_relics hsub
    have hbefore : w.Remembers ((w.tell (.unheld cell.id)).setSlot x (.parked fiber owner)) :=
      .write w _
    have hall := hunwinds.after hbefore
    obtain ⟨news, hnews⟩ :=
      Remembers.release ((w.tell (.unheld cell.id)).setSlot x (.parked fiber owner)) [.handle x]
    have hwritten : ((w.tell (.unheld cell.id)).setSlot x (.parked fiber owner)).history.toList =
        w.history.toList ++ [.event (.unheld cell.id)] := by simp [setSlot, tell]
    rw [hwritten, List.append_assoc] at hnews
    constructor
    · exact ⟨_, hnews.symm, iff_of_true (List.mem_append_left _ (List.mem_singleton_self _)) hall⟩
    · exact .inl hall
  · rw [if_neg hlast]
    have hshared : 1 < cell.clones := Nat.not_le.1 hlast
    have hlaid := get?_setSlot hcell (.parked fiber owner) x
    rw [if_pos rfl] at hlaid
    have hreleased := HandleTable.release_shared hlaid hshared
    have hhistory : ((w.setSlot x (.parked fiber owner)).release [.handle x]).history =
        w.history := by
      rw [release_eq, hreleased]
      simp [setSlot]
    constructor
    · refine ⟨[], by rw [hhistory, List.append_nil], ?_⟩
      exact iff_of_false List.not_mem_nil (not_unwinds_of_same hhistory)
    · refine .inr
        ⟨{ cell with slot := .parked fiber owner, clones := cell.clones - 1 }, ?_, rfl,
        Nat.sub_pos_of_lt hshared⟩
      rw [release_eq, hreleased, HandleTable.get?_put hlaid, if_pos rfl]

/-- An event that is told first has no part in unwinding. -/
theorem Unwinds.since {u w' : World} (h : w.Unwinds fiber w') {event : Event}
    (hbefore : u.history.toList = w.history.toList ++ [.event event]) (hafter : u.Remembers w') :
    u.Unwinds fiber w' := by
  obtain ⟨news, current, hnews, hsub⟩ := h
  obtain ⟨later, hlater⟩ := hafter
  rw [hbefore, List.append_assoc, hnews, List.append_cancel_left_eq] at hlater
  refine ⟨later, current, by rw [hnews, hbefore, ← hlater, List.append_assoc], ?_⟩
  rw [← hlater] at hsub
  cases hsub with
  | cons _ hlast => exact hlast

theorem park_pending (hcell : w.handles.get? x = some cell) (hslot : cell.slot = .pending)
    (fiber : Fiber) (owner : Owner) : (w.park x fiber owner).1 = none := by
  rw [park, hcell]
  simp only [hslot, Slot.park]

/-- A scheduler parks a fiber that suspended. -/
theorem receive_tells (hcell : w.handles.get? x = some cell) (hslot : cell.slot = .pending)
    (hsuspended : fiber.isSuspended = true) (s : SchedulerId) :
    w.ParkTells cell.id x fiber (.scheduler s) (w.receive s fiber (.suspended x)) := by
  generalize hcounted : (w.updateScheduler s Scheduler.countSuspension).tell
    (.suspended fiber.id) = u
  have hhandles : u.handles = w.handles := by rw [← hcounted]; rfl
  have hhistory : u.history.toList = w.history.toList ++ [.event (.suspended fiber.id)] := by
    rw [← hcounted]
    simp [tell, updateScheduler]
  have hcell' : u.handles.get? x = some cell := by rw [hhandles, hcell]
  have hreceived : w.receive s fiber (.suspended x) = (u.park x fiber (.scheduler s)).2 := by
    have hnone := park_pending hcell' hslot fiber (.scheduler s)
    rw [receive]
    simp only [hcounted]
    generalize u.park x fiber (.scheduler s) = result at hnone
    obtain ⟨met, after⟩ := result
    cases hnone
    rfl
  rw [hreceived]
  obtain ⟨⟨news, hnews, htells⟩, hstays⟩ := park_tells hcell' hslot hsuspended (.scheduler s)
  have hbefore : w.Remembers u := ⟨_, hhistory.symm⟩
  have hafter : u.Remembers (u.park x fiber (.scheduler s)).2 := ⟨news, hnews.symm⟩
  have hunwinds : w.Unwinds fiber (u.park x fiber (.scheduler s)).2 ↔
      u.Unwinds fiber (u.park x fiber (.scheduler s)).2 :=
    ⟨fun h => h.since hhistory hafter, fun h => h.after hbefore⟩
  constructor
  · refine ⟨.event (.suspended fiber.id) ::
      news, by rw [hnews, hhistory, List.append_assoc]; rfl, ?_⟩
    rw [hunwinds, ← htells, List.mem_cons]
    constructor
    · rintro (heq | member)
      · cases heq
      · exact member
    · exact .inr
  · rwa [hunwinds]

end World

namespace Machine

variable {m m' : Machine} {fiber : Fiber} {x : HandleRef} {cell : HandleCell} {s : SchedulerId}
  {frames : List Frame} {script : Script}

/-- A scheduler that parks a fiber in a pending handle tells that nobody holds the handle
just if the fiber is unwound in this step, and only after it the loop has its next turn. -/
theorem Sound.park_tells (h : m.Sound True) (htop : m.top = .dispatching s :: frames)
    (hcontrol : m.control = .back fiber (.suspended x)) (hcell : m.world.handles.get? x = some cell)
    (hslot : cell.slot = .pending) :
    ∃ m' ran max rest, m.step? = some m' ∧ m'.top = .draining s ran max :: rest ∧
      m.world.ParkTells cell.id x fiber (.scheduler s) m'.world := by
  have haccepts := h.accepts
  rw [htop, hcontrol] at haccepts
  obtain ⟨hentered, -, hexit⟩ := haccepts
  obtain ⟨ran, max, rest, rfl, -⟩ := hentered.of_dispatching
  have hsuspended : fiber.isSuspended = true := hexit.2 ⟨x, rfl⟩
  refine ⟨m.goTo (.draining s ran max :: rest) (m.world.receive s fiber (.suspended x)) .advance,
    ran, max, rest, ?_, ?_, ?_⟩
  · rw [h.step?_of_top htop, hcontrol]
    rfl
  · rw [goTo_top]
  · rw [goTo_world]
    exact World.receive_tells hcell hslot hsuspended s

/-- Releasing comes to an end, and beside handles only the history changes. A suspended
fiber is unwound in the step in which its last owner goes, once, and is nowhere after
that. What it pushed is released in the reverse order, each guard once, and not while it
is suspended. A park tells that nobody holds a pending handle just if the fiber goes with
that park. -/
theorem suspended_fibers_are_unwound_with_their_last_owner
    (h : Visits (fun _ => True) script.start m) : (∀ work, m.world.Releases work) ∧
      (∀ m', m.Follows m' → m.Fates m') ∧
      (∀ serial, m.world.tally (Mark.terminates serial) ≤ 1) ∧
      (∀ serial m', m.world.Discarded serial → Leads (fun _ => True) m m' →
        (∀ running ∈ m'.running, running.serial ≠ serial) ∧
          ∀ fiber, fiber.isSuspended = true → m'.Has fiber → fiber.serial ≠ serial) ∧
      (∀ serial, ∃ events guards, Guarded script.start serial m events ∧ Replays [] events guards ∧
        (m.Guarding serial guards ∨ guards = [] ∧ ∀ others, ¬m.Guarding serial others)) ∧
      (∀ s fiber x frames cell, m.top = .dispatching s :: frames →
        m.control = .back fiber (.suspended x) →
        m.world.handles.get? x = some cell → cell.slot = .pending →
          ∃ m' ran max rest, m.step? = some m' ∧ m'.top = .draining s ran max :: rest ∧
            m.world.ParkTells cell.id x fiber (.scheduler s) m'.world) ∧
      ∀ (w : World) x cell fiber owner, w.handles.get? x = some cell → cell.slot = .pending →
        fiber.isSuspended = true → w.ParkTells cell.id x fiber owner (w.park x fiber owner).2 := by
  have hm : m.Sound True := h.sound fun _ _ _ _ => trivial
  refine ⟨?_, ?_, ?_, ?_, ?_, ?_, ?_⟩
  · intro work
    exact m.world.releases work
  · intro m' hfollows
    exact hm.fates h.attended hfollows
  · intro serial
    exact hm.terminates_le serial
  · intro serial m' hdiscarded hleads
    exact hm.gone hdiscarded hleads
  · intro serial
    exact h.guarded serial
  · intro s fiber x frames cell htop hcontrol hcell hslot
    exact hm.park_tells htop hcontrol hcell hslot
  · intro w x cell fiber owner hcell hslot hsuspended
    exact World.park_tells hcell hslot hsuspended owner

/-- A task that holds a guard waits on a handle, which is then dropped. -/
def dropWhileWaiting : Action :=
  .scope [.enqueue 0 [.guard (.text "guard"), .await .unit (some "h") [] .raise none],
    .run 0 none false, .drop "h"] false

/-- The state of that program after some steps. -/
def dropping (steps : Nat) : Machine :=
  (Script.begin Script.single.start dropWhileWaiting).settle steps

/-- The drop takes the last clone, and the task and its guard go with it. -/
theorem dropping_unwinds_the_waiting_task :
    (dropping 11).holders ⟨0⟩ = 1 ∧ (dropping 12).holders ⟨0⟩ = 0 ∧
      ∃ fiber, fiber.guards = [.text "guard"] ∧
        (dropping 11).world.Unwinds fiber (dropping 12).world ∧
        ∀ m', Leads (fun _ => True) (dropping 12) m' →
          ∀ running ∈ m'.running, running.serial ≠ fiber.serial := by
  have hgone : (dropping 12).holders ⟨0⟩ = 0 := by decide +kernel
  have hparked : ∃ cell fiber owner, (dropping 11).world.handles.get? ⟨0⟩ = some cell ∧
      cell.slot = .parked fiber owner ∧ fiber.isSuspended = true ∧ fiber.guards = [.text "guard"] :=
    ⟨_, _, _, by with_unfolding_all rfl, by with_unfolding_all rfl, by with_unfolding_all rfl,
      by with_unfolding_all rfl⟩
  obtain ⟨cell, fiber, owner, hcell, hslot, hsuspended, hguards⟩ := hparked
  have hbefore :=
    suspended_fibers_are_unwound_with_their_last_owner
      (visits_settle Script.single.start dropWhileWaiting 11)
  have hafter :=
    suspended_fibers_are_unwound_with_their_last_owner
      (visits_settle Script.single.start dropWhileWaiting 12)
  have hfates : (dropping 11).Fates (dropping 12) :=
    hbefore.2.1 _ (.steps (by with_unfolding_all rfl))
  have hunwinds := (hfates.parked hcell hslot hsuspended (by with_unfolding_all rfl)).2.1.2 hgone
  refine ⟨by decide +kernel, hgone, fiber, hguards, hunwinds, ?_⟩
  intro m' hleads
  exact (hafter.2.2.2.1 fiber.serial m' hunwinds.discarded hleads).1

end Machine

end Fibers
