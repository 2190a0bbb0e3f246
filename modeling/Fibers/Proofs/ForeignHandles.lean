import Fibers.Proofs.Fates
import Fibers.Proofs.Labor

/-!
Handles of the foreign side. An await gives it a pointer to a clone of its handle, which
nothing releases until the pointer is passed back. So the foreign side has every handle for
which nothing was accepted, as long as it passes the handles of parked tasks to their own
schedulers: no such handle is emptied, and what is spent was accepted.
-/

namespace Fibers

open Asset (cloneOf)

namespace World

/-- Every handle for which nothing was accepted has clones left. -/
def Retentive (w : World) : Prop := ∀ y, w.handles.get? y ≠ none → w.accepted y = [] →
    0 < w.handles.clones y

/-- The foreign side has every handle for which nothing was accepted. -/
def Boxed (w : World) : Prop := ∀ y, w.handles.get? y ≠ none → w.accepted y = [] → y ∈ w.boxes

variable {w w' a b u : World} {s t : SchedulerId} {x y : HandleRef} {cell : HandleCell}
  {slot : Slot Fiber Owner Resumption}

/-- A handle that is put somewhere has clones left. -/
theorem Boxed.retentive {out : List Asset} (h : w.Boxed) (hbalanced : w.Balanced out) :
    w.Retentive := by
  intro y hmade hnone
  have hmember : 1 ≤ weigh (fun handle => cloneOf y (.loose (.handle handle))) w.boxes := by
    have hone := le_weigh_of_mem (fun handle => cloneOf y (.loose (.handle handle)))
      (h y hmade hnone)
    simpa only [cloneOf, if_true] using hone
  have hclones := hbalanced.clones y
  rw [boxes, weigh_append] at hmember
  rw [worth] at hclones
  omega

theorem Retentive.of_same (h : w.Retentive) (hhandles : w'.handles = w.handles)
    (haccepted : ∀ y, w'.accepted y = w.accepted y) : w'.Retentive := fun y hmade hnone => by
  rw [hhandles] at hmade ⊢
  exact h y hmade (haccepted y ▸ hnone)

theorem NoArrivals.owners_pos (h : a.NoArrivals b) (halive : 0 < b.owners s) : 0 < a.owners s := by
  have hsameOrGone := h.schedulers s
  rw [owners] at halive ⊢
  generalize a.scheduler? s = old, b.scheduler? s = new at hsameOrGone halive ⊢
  cases hsameOrGone with
  | none => exact halive
  | kept _ _ hdead => exact Nat.pos_of_ne_zero fun hzero => absurd halive (by simp [hdead hzero])
  | closed _ _ hdead => simp [hdead] at halive

theorem owners_append_eq (w : World) (t : SchedulerId) (entry : Runnable) (s : SchedulerId) :
    (w.append t entry).owners s = w.owners s := by
  by_cases hts : t = s
  · exact hts ▸ owners_append w t entry
  · change (w.updateScheduler t _).owners s = _
    rw [owners_updateScheduler, if_neg hts]

theorem get?_openAwait (w : World) (current : FiberId) (plan : AwaitPlan) (clones : Nat)
    (hmade : w.handles.get? y ≠ none) :
    (Machine.openAwait w current plan clones).2.handles.get? y = w.handles.get? y := by
  refine (get?_makeHandle w current clones y).trans (if_neg fun heq => hmade ?_)
  rw [← heq]
  exact List.getElem?_eq_none (Nat.le_refl _)

/-- No clone comes to what was without. -/
theorem Retentive.of_noArrivals (hheld : b.Retentive) (h : a.NoArrivals b) :
    a.Retentive := fun y hmade hnone =>
  h.clones_pos (hheld y (hmade ∘ h.get?_eq_none.1) ((h.accepted y).trans hnone))

theorem SetsSlot.get?_eq_none (h : SetsSlot y cell slot w u) : u.handles.get? x = none ↔
    w.handles.get? x = none := by
  obtain ⟨hcell, v, hlaid, -, -, hworn⟩ := h
  rw [hworn.get?_eq_none, hlaid, get?_setSlot hcell]
  split
  next heq => simp [heq, hcell]
  next => exact Iff.rfl

theorem SetsSlot.accepted (h : SetsSlot y cell slot w u) (hxy : x ≠ y) :
    u.accepted x = w.accepted x := by
  obtain ⟨-, v, -, -, htold, hworn⟩ := h
  exact (hworn.accepted x).trans (htold x hxy)

theorem SetsSlot.owners_pos (h : SetsSlot y cell slot w u) (halive : 0 < u.owners s) :
    0 < w.owners s := by
  obtain ⟨-, v, -, hschedulers, -, hworn⟩ := h
  have hpos := hworn.owners_pos halive
  rwa [owners, scheduler?, hschedulers] at hpos

theorem Retentive.of_setsSlot (hheld : u.Retentive) (h : SetsSlot y cell slot w u)
    (hclones : 0 < cell.clones) : w.Retentive := by
  intro x hmade hnone
  by_cases hxy : x = y
  · rwa [hxy, HandleTable.clones, h.hcell]
  · exact h.clones_pos (hheld x (hmade ∘ h.get?_eq_none.1) ((h.accepted hxy).trans hnone))

theorem accepted_openAwait (w : World) (current : FiberId) (plan : AwaitPlan) (clones : Nat)
    (y : HandleRef) : (Machine.openAwait w current plan clones).2.accepted y = w.accepted y :=
  (accepted_mark ..).trans (List.append_nil _)

theorem Retentive.of_openAwait {current : FiberId} {plan : AwaitPlan} {clones : Nat}
    (h : (Machine.openAwait w current plan clones).2.Retentive) :
    w.Retentive := fun y hmade hnone => by
  have hsame := get?_openAwait w current plan clones hmade
  have hclones := h y (by rwa [hsame]) ((accepted_openAwait ..).trans hnone)
  rwa [HandleTable.clones, hsame] at hclones

theorem Opens.get?_eq_none_of_ne {plan : AwaitPlan} (h : w.Opens y plan w') (hxy : x ≠ y) :
    w'.handles.get? x = none ↔ w.handles.get? x = none := by
  obtain ⟨current, clones, hbefore, rfl, hafter⟩ := h
  rename_i u
  rw [hafter.toNoArrivals.get?_eq_none, ← hbefore.toNoArrivals.get?_eq_none]
  exact iff_of_eq
    (congrArg (· = none) ((get?_makeHandle u current clones x).trans (if_neg (Ne.symm hxy))))

/-! ### Handles that are spent -/

theorem isSpent_congr (h : w'.handles = w.handles) : w'.IsSpent x ↔ w.IsSpent x := by
  rw [IsSpent, h]
  exact Iff.rfl

/-- Where the clones last, no handle is emptied. -/
theorem IsSpent.of_noArrivals (h : b.IsSpent x) (hnoArrivals : a.NoArrivals b) (hheld : b.Retentive)
    (hnone : b.accepted x = []) : a.IsSpent x := by
  obtain ⟨cell, hcell, hslot⟩ := h
  have hsameOrGone := hnoArrivals.cells x
  rw [hcell] at hsameOrGone
  generalize hold : a.handles.get? x = old at hsameOrGone
  cases hsameOrGone with
  | kept => exact ⟨_, hold, hslot⟩
  | emptied =>
    have hpos := hheld x (by simp [hcell]) hnone
    rw [HandleTable.clones, hcell] at hpos
    exact absurd hpos (Nat.lt_irrefl 0)

theorem IsSpent.of_setsSlot (h : u.IsSpent x) (hsets : SetsSlot y cell slot w u)
    (hheld : u.Retentive) (hnone : u.accepted x = []) : w.IsSpent x ∨ x = y ∧ slot = .spent := by
  obtain ⟨hcell, v, hlaid, -, -, hworn⟩ := hsets
  obtain ⟨other, hother, hspent⟩ := h.of_noArrivals hworn hheld hnone
  rw [hlaid, get?_setSlot hcell] at hother
  split at hother
  next heq =>
    cases hother
    exact .inr ⟨heq, hspent⟩
  next => exact .inl ⟨other, hother, hspent⟩

/-- A new handle is not spent. -/
theorem IsSpent.of_opens {plan : AwaitPlan} (h : w'.IsSpent x) (hopens : w.Opens y plan w')
    (hheld : w'.Retentive) (hnone : w'.accepted x = []) : w.IsSpent x := by
  obtain ⟨current, clones, hbefore, -, hafter⟩ := hopens
  rename_i u
  have hmade := hheld.of_noArrivals hafter.toNoArrivals
  have hnone' : u.accepted x = [] := by
    rwa [hafter.toNoArrivals.accepted, accepted_openAwait] at hnone
  obtain ⟨cell, hcell, hslot⟩ := h.of_noArrivals hafter.toNoArrivals hheld hnone
  rw [openAwait_eq] at hcell
  change (u.makeHandle current clones).2.handles.get? x = some cell at hcell
  rw [get?_makeHandle] at hcell
  split at hcell
  · cases hcell
    cases hslot
  · exact IsSpent.of_noArrivals ⟨cell, hcell, hslot⟩ hbefore.toNoArrivals hmade.of_openAwait hnone'

end World

namespace Machine

variable {byHand : Prop} {m m' n : Machine} {frames : List Frame} {s t : SchedulerId}
  {x y : HandleRef} {cell : HandleCell} {resumption : Resumption} {fiber : Fiber} {w : World}
  {script : Script}

/-! ### Handles are kept -/

/-- A delivery that is accepted tells of nothing else. -/
theorem Delivers.accepts (h : Delivers n s x cell resumption m')
    (hslot : cell.slot = .pending ∨ ∃ fiber, cell.slot = .parked fiber (.scheduler s))
    (y : HandleRef) :
    m'.world.accepted y = n.world.accepted y ++ (if x = y then [resumption] else []) := by
  have hcontrol : ∀ fault, m'.control ≠ .answer (.error fault) := by
    cases h with
    | stored | queued => exact nofun
    | dispatched => exact fun fault => enter_control _ _ _ _
    | refused fault event hpending hother =>
      rcases hslot with hslot | ⟨fiber, hslot⟩
      · exact absurd hslot hpending
      · exact absurd hslot (hother fiber)
  refine ((h.told (minds_accepted? y).toNotes).resolve_left fun hrefused => hrefused.1.elim
      hcontrol).2.trans ?_
  rw [Mark.accepted?]
  split <;> rfl

/-- A delivery is refused, or it lays the slot of its handle. -/
theorem Delivers.setsSlot (h : Delivers m t y cell resumption m')
    (hcell : m.world.handles.get? y = some cell)
    (hrests : ∀ fiber, cell.slot = .parked fiber (.scheduler t) → fiber.Rests (some t)) :
    m.world.NoArrivals m'.world ∨ ∃ slot u, World.SetsSlot y cell slot m.world u ∧
      m'.world.handles = u.handles ∧
      (∀ z, m'.world.accepted z = u.accepted z) ∧ m'.world.accepted y ≠ [] ∧
      ∀ s, m'.world.owners s = u.owners s := by
  have haccepted : cell.slot = .pending ∨ (∃ fiber, cell.slot = .parked fiber (.scheduler t)) →
      m'.world.accepted y ≠ [] := fun hslot => by
    rw [h.accepts hslot, if_pos rfl]
    simp
  cases h with
  | stored event hslot hquiet =>
    exact .inr ⟨_, _, setsSlot_release hcell (.woken resumption) resumption event hquiet,
      rfl, fun _ => rfl, haccepted (.inl hslot), fun _ => rfl⟩
  | queued fiber event hslot hcurrent hquiet =>
    exact .inr ⟨_, _, setsSlot_release hcell .spent resumption event hquiet, rfl,
      fun _ => World.told_append _ _ _ rfl, haccepted (.inr ⟨fiber, hslot⟩), fun _ =>
        World.owners_append_eq ..⟩
  | dispatched fiber event hslot hcurrent hquiet =>
    have hstate := suspended_of_rests (hrests fiber hslot)
    refine .inr ⟨_, _, setsSlot_release hcell .spent resumption event hquiet, ?_, fun z => ?_,
      haccepted (.inr ⟨fiber, hslot⟩), fun _ => ?_⟩
    · refine (enter_handles (.inl hstate) _).trans ?_
      rw [goTo_world]
      rfl
    · rw [World.accepted, told_enter _ _ _ (Mark.heeds_accepted? z), goTo_world, World.told_mark]
      exact List.append_nil _
    · obtain ⟨stack, first, hstate⟩ := hstate
      rw [enter_suspended hstate]
      rfl
  | refused fault event hslot hother hquiet =>
    exact .inl ((World.noArrivals_release _ _).trans (.tell _ hquiet.1))

theorem get?_delivers (h : Delivers m t x cell resumption m')
    (hcell : m.world.handles.get? x = some cell)
    (hrests : ∀ fiber, cell.slot = .parked fiber (.scheduler t) → fiber.Rests (some t)) :
    m'.world.handles.get? y = none ↔ m.world.handles.get? y = none := by
  rcases h.setsSlot hcell hrests with hnoArrivals | ⟨slot, u, hsets, hhandles, -⟩
  · exact hnoArrivals.get?_eq_none
  · rw [hhandles]
    exact hsets.get?_eq_none

/-- A delivery makes no handle, and no scheduler comes alive by it. -/
theorem Delivers.retentive (h : Delivers m t y cell resumption m')
    (hcell : m.world.handles.get? y = some cell) (hclones : 0 < cell.clones)
    (hrests : ∀ fiber, cell.slot = .parked fiber (.scheduler t) → fiber.Rests (some t))
    (hheld : m'.world.Retentive) : m.world.Retentive ∧
    (0 < m'.world.owners s → 0 < m.world.owners s) := by
  rcases h.setsSlot hcell hrests with
    hnoArrivals | ⟨slot, u, hsets, hhandles, haccepted, -, howners⟩
  · exact ⟨hheld.of_noArrivals hnoArrivals, hnoArrivals.owners_pos⟩
  · refine ⟨World.Retentive.of_setsSlot ?_ hsets hclones, fun halive => hsets.owners_pos
      (howners s ▸ halive)⟩
    exact hheld.of_same hhandles.symm fun z => (haccepted z).symm

/-- A delivery spends no handle but the one that it is accepted for. -/
theorem Delivers.spends (h : Delivers m t y cell resumption m')
    (hcell : m.world.handles.get? y = some cell)
    (hrests : ∀ fiber, cell.slot = .parked fiber (.scheduler t) → fiber.Rests (some t))
    (hheld : m'.world.Retentive) (hx : m'.world.IsSpent x) (hnone : m'.world.accepted x = []) :
    m.world.IsSpent x := by
  rcases h.setsSlot hcell hrests with hnoArrivals | ⟨slot, u, hsets, hhandles, haccepted, hsome, -⟩
  · exact hx.of_noArrivals hnoArrivals hheld hnone
  · have hheld' : u.Retentive := hheld.of_same hhandles.symm fun z => (haccepted z).symm
    refine (((World.isSpent_congr hhandles).1 hx).of_setsSlot hsets hheld'
        (haccepted x ▸ hnone)).resolve_right ?_
    rintro ⟨rfl, -⟩
    exact hsome hnone

/-- A fiber that comes back for an open handle parks there, or meets its resumption. -/
theorem setsSlot_parks {w w' : World} {owner : Owner} {back : Option (Fiber × Resumption)}
    (hopen : w.IsOpen x) (hcell : w.handles.get? x = some cell)
    (h : w.Parks x cell fiber owner (back, w')) :
    ∃ slot, World.SetsSlot x cell slot w w' ∧ (back = none → slot = .parked fiber owner) := by
  cases h with
  | absorbed hslot u hu =>
    refine ⟨.parked fiber owner,
      ⟨hcell, u.setSlot x (.parked fiber owner), ?_, ?_, fun y _ => ?_,
        World.noArrivals_release _ _⟩,
      fun _ => rfl⟩
    · rcases hu with rfl | rfl <;> rfl
    · rcases hu with rfl | rfl <;> rfl
    · rcases hu with rfl | rfl
      · rfl
      · exact World.told_tell ..
  | met resumption hslot =>
    exact ⟨.spent,
      ⟨hcell, w.setSlot x .spent, rfl, rfl, fun _ _ => rfl, World.noArrivals_release _ _⟩, nofun⟩
  | refused hslot =>
    obtain ⟨other, hother, hopen⟩ := hopen
    cases hcell.symm.trans hother
    rcases hslot with hslot | ⟨_, _, hslot⟩ <;> rcases hopen with hopen | ⟨_, hopen⟩ <;>
      exact nomatch hslot.symm.trans hopen

theorem get?_receives {exit : Exit} (hm : m.Sound byHand) (hheedful : m.Heedful)
    (hcontrol : m.control = .back fiber exit) (h : m.world.Receives s fiber exit w) :
    w.handles.get? y = none ↔ m.world.handles.get? y = none := by
  cases h with
  | ended hexit hreckons => exact (hreckons.noArrivals (hm.kept_of_back hcontrol)).get?_eq_none
  | parked hcell hbefore hsame hparks | handedBack hcell hbefore hsame hparks =>
    have hopen := World.isOpen_of_same hsame (hheedful.back _ _ hcontrol).2
    obtain ⟨slot, hsets, -⟩ := setsSlot_parks hopen (hsame ▸ hcell) hparks
    rw [← hsame]
    exact hsets.get?_eq_none

theorem get?_drains {ran : Nat} {max : Option Nat} (hm : m.Sound byHand)
    (htop : m.top = .draining s ran max :: frames)
    (h : Drains (m.goTo frames m.world .advance) s ran max m') :
    m'.world.handles.get? y = none ↔ m.world.handles.get? y = none := by
  have hkept := hm.kept_of_top htop
  cases h with
  | stops hstops => exact Iff.rfl
  | @fails id body w w₁ w₂ hmore hnext hbefore hafter =>
    have hbegun := ((hkept.next hnext).drift_gain hbefore).noArrivals
    have hfailed := hafter.noArrivals (World.Sound.unstarted ((hkept.next hnext).gain hbefore))
    rw [goTo_world, hfailed.get?_eq_none]
    exact hbegun.get?_eq_none.trans (by rw [World.handles_next hnext, goTo_world])
  | @starts id body fiber w w₁ hmore hnext hbefore hid hhome hstate =>
    have hbegun := ((hkept.next hnext).drift_gain hbefore).noArrivals
    rw [enter_handles (.inr ⟨body, hstate, rfl⟩), goTo_world]
    exact hbegun.get?_eq_none.trans (by rw [World.handles_next hnext, goTo_world])
  | @wakes fiber resumption w hmore hnext =>
    obtain ⟨queue, hqueue, -⟩ := World.next?_eq hnext
    have hrests := hm.kept.orderly.queued s fiber resumption (hqueue ▸ List.mem_cons_self ..)
    rw [enter_handles (.inl (suspended_of_rests hrests)), goTo_world,
      World.handles_next hnext, goTo_world]

theorem leave_noArrivals (m : Machine) (running : Running) (below : List Running) (exit : Exit) :
    ∃ u : World, u.handles = m.world.handles ∧ u.schedulers = m.world.schedulers ∧
      (∀ y, u.accepted y = m.world.accepted y) ∧
      u.NoArrivals (m.leave running below exit).world := by
  exact ⟨m.world.restore running.current running.outer, rfl, rfl, fun y => rfl,
    (World.noArrivals_release _ _).trans (.mark _ trivial)⟩

/-- Only awaits make handles, and the foreign side has what they make. -/
theorem Fares.makes (h : m.Fares m') (hm : m.Sound False) (hheedful : m.Heedful) :
    (∀ y, m'.world.handles.get? y = none ↔ m.world.handles.get? y = none) ∨
      ∃ x running below,
        (∀ y, y ≠ x → (m'.world.handles.get? y = none ↔ m.world.handles.get? y = none)) ∧
        x ∈ m'.world.boxes ∧ m'.running = running :: below ∧
          .registering x .foreign ∈ running.frames := by
  cases h with
  | goesOn htop hcontrol hleft hnoProgress | concludes htop hcontrol hnoProgress =>
    exact .inl fun _ => hnoProgress.toNoArrivals.get?_eq_none
  | @enqueues action todo guards frames position body t scheduler shown htop hcontrol haction ht =>
    refine .inl fun y => ?_
    change (m.world.enqueue t body).2.handles.get? y = none ↔ _
    rw [World.handles_enqueue]
  | @asks action todo guards frames w t max htop hcontrol hnoProgress hboxes =>
    obtain ⟨frames', control, heq, -⟩ :=
      run_eq (m.goTo (.answering t .foreignRun :: .actions todo guards :: frames) w .advance) t max
    rw [heq]
    exact .inl fun _ => hnoProgress.toNoArrivals.get?_eq_none
  | passes htop hcontrol hpasses hnoProgress hboxes hcell hclones ht hdelivers =>
    exact .inl fun y =>
      (get?_delivers hdelivers hcell fun _ => hm.kept.orderly.rests_of_noArrivals
      hnoProgress.toNoArrivals hcell).trans hnoProgress.toNoArrivals.get?_eq_none
  | @opens action todo register guards frames slot x w htop hcontrol haction hinside
    hopens hboxes =>
    obtain ⟨world, levels, root, control⟩ := m
    cases levels with
    | nil => exact absurd rfl hinside
    | cons first below =>
      exact .inr ⟨x, _, below, fun y hyx => hopens.get?_eq_none_of_ne hyx, hboxes x (.inl rfl), rfl,
        List.mem_cons_of_mem _ (List.mem_cons_self ..)⟩
  | suspends htop hcontrol =>
    obtain ⟨running, below, hrunning⟩ := hm.inside_of_registering htop (hcontrol ▸ trivial)
    rw [suspendAwait_eq hrunning]
    exact .inl fun _ => Iff.rfl
  | receives htop hcontrol hreceives =>
    exact .inl fun _ => get?_receives hm hheedful hcontrol hreceives
  | drains htop hcontrol hdrains => exact .inl fun _ => get?_drains hm htop hdrains
  | @leaves running below hrunning htop hcontrol =>
    obtain ⟨u, hhandles, -, -, hnoArrivals⟩ := leave_noArrivals m running below .completed
    exact .inl fun y => hnoArrivals.get?_eq_none.trans (by rw [hhandles])

/-- A fiber that comes back spends a handle only with what was accepted for it before. -/
theorem spends_receives {exit : Exit} (hm : m.Sound byHand) (hheedful : m.Heedful)
    (hcontrol : m.control = .back fiber exit) (h : m.world.Receives s fiber exit w)
    (hheld : w.Retentive) (hx : w.IsSpent x) (hnone : w.accepted x = [])
    (hbefore : m.world.accepted x = []) : m.world.IsSpent x := by
  cases h with
  | ended hexit hreckons =>
    exact hx.of_noArrivals (hreckons.noArrivals (hm.kept_of_back hcontrol)) hheld hnone
  | @parked y cell w₁ w₂ hcell _ hsame hparks =>
    have hopen := World.isOpen_of_same hsame (hheedful.back _ _ hcontrol).2
    obtain ⟨slot, hsets, hslot⟩ := setsSlot_parks hopen (hsame ▸ hcell) hparks
    have hlaid := (hx.of_setsSlot hsets hheld hnone).resolve_right (by simp [hslot rfl])
    exact (World.isSpent_congr hsame).1 hlaid
  | @handedBack y cell r w₁ w₂ hcell _ hsame hparks =>
    have hopen := World.isOpen_of_same hsame (hheedful.back _ _ hcontrol).2
    have hhandles : (w₂.append s (.woken fiber r)).handles = w₂.handles := rfl
    have haccepted : ∀ z, (w₂.append s (.woken fiber r)).accepted z = w₂.accepted z :=
      fun z => World.told_append _ _ _ rfl
    have hheld' : w₂.Retentive := hheld.of_same hhandles.symm fun z => (haccepted z).symm
    obtain ⟨slot, hsets, -⟩ := setsSlot_parks hopen (hsame ▸ hcell) hparks
    rcases ((World.isSpent_congr hhandles).1 hx).of_setsSlot hsets hheld' (haccepted x ▸ hnone) with
      hlaid | ⟨rfl, -⟩
    · exact (World.isSpent_congr hsame).1 hlaid
    · cases hparks with
      | met _ hwoken => simp [(hheedful.tended.woken hcell hwoken).accepted] at hbefore
      | refused hused =>
        obtain ⟨other, hother, hopen⟩ := (hheedful.back _ _ hcontrol).2
        cases hcell.symm.trans hother
        rcases hused with hused | ⟨_, _, hused⟩ <;> rcases hopen with hopen | ⟨_, hopen⟩ <;>
          exact nomatch hused.symm.trans hopen

theorem Drains.isSpent {ran : Nat} {max : Option Nat}
    (h : Drains (m.goTo frames m.world .advance) s ran max m') (hm : m.Sound byHand)
    (htop : m.top = .draining s ran max :: frames) (hheld : m'.world.Retentive)
    (hx : m'.world.IsSpent x) (hnone : m'.world.accepted x = []) : m.world.IsSpent x := by
  have hkept := hm.kept_of_top htop
  cases h with
  | stops hstops => exact hx
  | @fails id body w w₁ w₂ hmore hnext hbefore hafter =>
    have hbegun := ((hkept.next hnext).drift_gain hbefore).noArrivals
    have hfailed := hafter.noArrivals (World.Sound.unstarted ((hkept.next hnext).gain hbefore))
    have hmarked : w₁.NoArrivals (w₁.mark (.unstarted s id)) := .mark w₁ trivial
    exact (World.isSpent_congr (World.handles_next hnext)).1
      (hx.of_noArrivals ((hbegun.trans hmarked).trans hfailed) hheld hnone)
  | @starts id body fiber w w₁ hmore hnext hbefore hid hhome hstate =>
    have hbegun := ((hkept.next hnext).drift_gain hbefore).noArrivals
    generalize hentered : (m.goTo frames m.world .advance).goTo
      (.dispatching s :: .draining s (ran + 1) max ::
      (m.goTo frames m.world .advance).top) w₁ (m.goTo frames m.world .advance).control =
      entered at hheld hx hnone
    have hworld : entered.world = w₁ := hentered ▸ goTo_world ..
    have hhandles : (entered.enter fiber .unit).world.handles = w₁.handles :=
      (enter_handles (.inr ⟨body, hstate, rfl⟩) entered).trans (by rw [hworld])
    have haccepted : ∀ z, (entered.enter fiber .unit).world.accepted z = w₁.accepted z := fun z =>
      (told_enter _ _ _ (Mark.heeds_accepted? z)).trans (by rw [hworld]; rfl)
    exact (World.isSpent_congr (World.handles_next hnext)).1
      (((World.isSpent_congr hhandles).1 hx).of_noArrivals hbegun
      (hheld.of_same hhandles.symm fun z => (haccepted z).symm) (haccepted x ▸ hnone))
  | @wakes fiber resumption w hmore hnext =>
    obtain ⟨queue, hqueue, -⟩ := World.next?_eq hnext
    have hrests := hm.kept.orderly.queued s fiber resumption (hqueue ▸ List.mem_cons_self ..)
    refine (World.isSpent_congr ?_).1 hx
    rw [enter_handles (.inl (suspended_of_rests hrests)), goTo_world,
      World.handles_next hnext, goTo_world]

/-- A run is refused, or its frame comes on top. -/
theorem run_pushes (m : Machine) (s : SchedulerId) (max : Option Nat) :
    ∃ pushed control, m.run s max = m.goTo (pushed ++ m.top) m.world control := by
  rw [run]
  split
  · exact ⟨[], _, withControl_eq ..⟩
  · exact ⟨[.draining s 0 max], .advance, by rw [push_eq, goTo_advance]; rfl⟩

/-- No step of a foreign program spends a handle for which nothing was accepted. -/
theorem Fares.spends (h : m.Fares m') (hm : m.Sound False) (hheedful : m.Heedful)
    (hheld : m'.world.Retentive) (hx : m'.world.IsSpent x) (hnone : m'.world.accepted x = [])
    (hbefore : m.world.accepted x = []) :
    m.world.IsSpent x := by
  cases h with
  | goesOn htop hcontrol hleft hnoProgress =>
    exact hx.of_noArrivals hnoProgress.toNoArrivals hheld hnone
  | @enqueues action todo guards frames position body t scheduler shown htop hcontrol haction ht =>
    exact (World.isSpent_congr (World.handles_enqueue m.world t body)).1 hx
  | @asks action todo guards frames w t max htop hcontrol hnoProgress hboxes =>
    obtain ⟨pushed, control, heq⟩ :=
      run_pushes (m.goTo (.answering t .foreignRun :: .actions todo guards :: frames) w .advance) t
        max
    rw [heq] at hheld hx hnone
    exact World.IsSpent.of_noArrivals hx hnoProgress.toNoArrivals hheld hnone
  | @passes action todo guards frames w t y cell r _ name htop hcontrol hpasses
    hnoProgress hboxes hcell hclones ht hdelivers =>
    have hrests : ∀ fiber, cell.slot = .parked fiber (.scheduler t) →
        fiber.Rests (some t) := fun _ =>
      hm.kept.orderly.rests_of_noArrivals hnoProgress.toNoArrivals hcell
    have hheld' := (hdelivers.retentive hcell hclones hrests hheld (s := t)).1
    have hspent := hdelivers.spends hcell hrests hheld hx hnone
    exact World.IsSpent.of_noArrivals hspent hnoProgress.toNoArrivals hheld'
      ((hnoProgress.toNoArrivals.accepted x).trans hbefore)
  | @opens action todo register guards frames slot y w htop hcontrol haction hinside
    hopens hboxes =>
    exact World.IsSpent.of_opens hx hopens hheld hnone
  | suspends htop hcontrol =>
    obtain ⟨running, below, hrunning⟩ := hm.inside_of_registering htop (hcontrol ▸ trivial)
    rw [suspendAwait_eq hrunning] at hx
    exact hx
  | @concludes y frames r w htop hcontrol hnoProgress hboxes =>
    exact World.IsSpent.of_noArrivals (a := m.world.mark (.awaited y r)) hx
      hnoProgress.toNoArrivals hheld hnone
  | receives htop hcontrol hreceives =>
    exact spends_receives hm hheedful hcontrol hreceives hheld hx hnone hbefore
  | drains htop hcontrol hdrains => exact hdrains.isSpent hm htop hheld hx hnone
  | @leaves running below hrunning htop hcontrol =>
    obtain ⟨u, hhandles, -, haccepted, hnoArrivals⟩ := leave_noArrivals m running below .completed
    exact (World.isSpent_congr hhandles).1 (hx.of_noArrivals hnoArrivals hheld hnone)

/-! ### Passing to parked tasks -/

/-- Whatever control is about to pass, a task that has parked for it is of the scheduler that
it is passed through. -/
def PassesHome (m : Machine) : Prop :=
  ∀ s x name resumption, m.Passes s x name resumption →
    ∀ cell fiber owner, m.world.handles.get? x = some cell →
    cell.slot = .parked fiber owner → fiber.home = some s

/-- Nothing stands in the way of what is passed for the first time, unless the task has
parked with another scheduler. -/
theorem slot_of_noProgress (hm : m.Sound byHand) (hheedful : m.Heedful)
    (hnoProgress : m.world.NoProgress w) (hcell : w.handles.get? x = some cell)
    (hclones : 0 < cell.clones) (hnone : m.world.accepted x = [])
    (hspent : m.world.IsSpent x → m.world.accepted x ≠ [])
    (hparked : ∀ cell fiber owner, m.world.handles.get? x = some cell →
      cell.slot = .parked fiber owner →
      fiber.home = some s) : cell.slot = .pending ∨ ∃ fiber,
        cell.slot = .parked fiber (.scheduler s) := by
  have hnoArrivals := hnoProgress.toNoArrivals
  cases hslot : cell.slot with
  | pending => exact .inl rfl
  | woken early =>
    obtain ⟨old, hold, heq⟩ := hnoArrivals.slot_eq hcell (by simp [hslot])
    rw [(hheedful.tended.woken hold (heq.symm.trans hslot)).accepted] at hnone
    cases hnone
  | parked fiber owner =>
    obtain ⟨old, hold, heq⟩ := hnoArrivals.slot_eq hcell (by simp [hslot])
    have hslot' := heq.symm.trans hslot
    have hhome :=
      (hm.kept.orderly.rests_of_met hold hslot').home_eq.symm.trans
        (hparked old fiber owner hold hslot')
    cases owner with
    | scheduler t =>
      cases hhome
      exact .inr ⟨fiber, rfl⟩
    | caller number => cases hhome
  | spent =>
    have hsameOrGone := hnoArrivals.cells x
    rw [hcell] at hsameOrGone
    generalize hold : m.world.handles.get? x = old at hsameOrGone
    cases hsameOrGone with
    | kept => exact absurd hnone (hspent ⟨_, hold, hslot⟩)
    | emptied => exact absurd hclones (Nat.lt_irrefl 0)

/-- The foreign side gives up no handle for which nothing was accepted. -/
theorem Fares.keeps (h : m.Fares m') (hm : m.Sound False) (hheedful : m.Heedful)
    (hhome : m.PassesHome) (hspent : ∀ x, m.world.IsSpent x → m.world.accepted x ≠ [])
    (hy : y ∈ m.world.boxes) (hbefore : m.world.accepted y = [])
    (hnone : m'.world.accepted y = []) : y ∈ m'.world.boxes := by
  cases h with
  | goesOn htop hcontrol hleft hnoProgress hboxes | concludes htop hcontrol hnoProgress hboxes
  | receives htop hcontrol hreceives hboxes =>
    rw [goTo_world, hboxes]
    exact hy
  | enqueues shown htop hcontrol haction ht =>
    rw [goTo_world, World.boxes_of_surroundings
      ((World.surroundings_emit ..).trans (World.surroundings_enqueue ..))]
    exact hy
  | @asks action todo guards frames w t max htop hcontrol hnoProgress hboxes =>
    obtain ⟨pushed, control, heq⟩ :=
      run_pushes (m.goTo (.answering t .foreignRun :: .actions todo guards :: frames) w .advance) t
        max
    rw [heq, goTo_world, goTo_world, hboxes]
    exact hy
  | @passes action todo guards frames w t x cell r _ name htop hcontrol hpasses
    hnoProgress hboxes hcell hclones ht hdelivers =>
    rw [World.boxes_of_surroundings hdelivers.surroundings, goTo_world]
    refine (hboxes y hy).resolve_left ?_
    rintro rfl
    have hslot := slot_of_noProgress hm hheedful hnoProgress hcell hclones hbefore (hspent y)
      (hhome t y name r hpasses)
    rw [hdelivers.accepts hslot, if_pos rfl] at hnone
    simp at hnone
  | opens htop hcontrol haction hinside hopens hboxes =>
    rw [goTo_world]
    exact hboxes y (.inr hy)
  | suspends htop hcontrol =>
    rw [suspendAwait, World.boxes_of_surroundings (surroundings_suspend ..), push_eq,
      goTo_world, goTo_world]
    exact hy
  | drains htop hcontrol hdrains hboxes =>
    rw [hboxes]
    exact hy
  | leaves hrunning htop hcontrol =>
    rw [World.boxes_of_surroundings (surroundings_leave ..)]
    exact hy

/-! ### Sessions -/

/-- The first state leads to the second one in a session of the foreign side, which passes
the handles of parked tasks to their schedulers and gives no name up. -/
inductive LeadsHome (m : Machine) : Machine → Prop
  | refl : LeadsHome m m
  | steps {a b : Machine} (h : LeadsHome m a) (hstep : a.step? = some b)
      (hallowed : ∀ action, a.nextAction? = some action → action.core.IsForeign)
      (hhome : a.PassesHome) : LeadsHome m b
  | goesOn {a : Machine} (h : LeadsHome m a) (hdone : a.Done) (action : Action) :
      LeadsHome m (Script.begin (Script.showOutcome a) action)

/-- The states that such a session comes by that starts in some world. -/
def VisitsHome (start : World) (m : Machine) : Prop :=
  ∃ action, LeadsHome (Script.begin start action) m

variable {a b : Machine} {start : World}

theorem LeadsHome.leads (h : LeadsHome a m) : Leads Action.IsForeign a m := by
  induction h with
  | refl => exact .refl
  | steps _ hstep hallowed _ ih => exact ih.steps hstep hallowed
  | goesOn _ hdone action ih => exact ih.goesOn hdone action

theorem LeadsHome.trans (first : LeadsHome a b) (second : LeadsHome b m) : LeadsHome a m := by
  induction second with
  | refl => exact first
  | steps _ hstep hallowed hhome ih => exact ih.steps hstep hallowed hhome
  | goesOn _ hdone action ih => exact ih.goesOn hdone action

theorem VisitsHome.visits (h : VisitsHome start m) : Visits Action.IsForeign start m :=
  h.imp fun _ => LeadsHome.leads

theorem VisitsHome.leads (h : VisitsHome start a) (hleads : LeadsHome a m) : VisitsHome start m :=
  h.imp fun _ hbefore => hbefore.trans hleads

/-- What was accepted is not forgotten in a step. -/
theorem Visits.accepted_of_step (h : Visits Action.IsPublic script.start m)
    (hstep : m.step? = some m') (hnone : m'.world.accepted x = []) : m.world.accepted x = [] := by
  have hremembers : m.world.Remembers m'.world :=
    (Leads.refl.steps hstep fun _ _ => trivial).remembers (h.sound fun _ _ _ _ => trivial)
  have hlonger := hremembers.told_le (Mark.accepted? x)
  rw [show m'.world.told (Mark.accepted? x) = [] from hnone] at hlonger
  exact List.length_eq_zero_iff.1 (Nat.le_zero.1 hlonger)

theorem boxes_showOutcome (m : Machine) : (Script.showOutcome m).boxes = m.world.boxes := by
  rw [Script.showOutcome]
  split <;> rfl

/-- Throughout such a session the foreign side has every handle for which nothing was
accepted, and only what something was accepted for is spent. -/
theorem VisitsHome.boxed (h : VisitsHome script.start m) :
    m.world.Boxed ∧ ∀ x, m.world.IsSpent x → m.world.accepted x ≠ [] := by
  obtain ⟨action, hleads⟩ := h
  have hbefore : VisitsHome script.start (Script.begin script.start action) := ⟨action, .refl⟩
  have hunmade : ∀ x, script.start.handles.get? x = none :=
    fun x => by rw [World.handles_start]; rfl
  induction hleads with
  | refl =>
    refine ⟨fun y hmade => absurd (hunmade y) hmade, ?_⟩
    rintro x ⟨cell, hcell, -⟩
    cases (hunmade x).symm.trans hcell
  | @steps a b hleads hstep hallowed hhome ih =>
    obtain ⟨hboxed, hspent⟩ := ih
    have ha := (hbefore.leads hleads).visits
    have hpublic := ha.public_of_foreign
    have hfares := hpublic.public.fares (ha.isForeign hallowed) hstep
    have hb := (hbefore.leads (hleads.steps hstep hallowed hhome)).visits.public_of_foreign
    have hboxed' : b.world.Boxed := fun y hmade hnone => by
      have hnone' := hpublic.accepted_of_step hstep hnone
      have hkept : a.world.handles.get? y ≠ none → y ∈ b.world.boxes := fun hmade =>
        hfares.keeps hpublic.public hpublic.faithful.toHeedful hhome hspent
          (hboxed y hmade hnone') hnone' hnone
      rcases hfares.makes hpublic.public hpublic.faithful.toHeedful with
        hsame | ⟨x, _, _, hother, hx, -⟩
      · exact hkept (hmade ∘ (hsame y).2)
      · by_cases hyx : y = x
        · exact hyx ▸ hx
        · exact hkept (hmade ∘ (hother y hyx).2)
    refine ⟨hboxed', fun x hx hnone => ?_⟩
    have hnone' := hpublic.accepted_of_step hstep hnone
    exact hspent x (hfares.spends hpublic.public hpublic.faithful.toHeedful
      (hboxed'.retentive hb.public.kept.balanced) hx hnone hnone') hnone'
  | @goesOn a hleads hdone next ih =>
    obtain ⟨hboxed, hspent⟩ := ih
    have hnoArrivals : a.world.NoArrivals (Script.showOutcome a) := Between.shows.noArrivals
    have hboxed' : (Script.showOutcome a).Boxed := fun y hmade hnone => by
      rw [boxes_showOutcome]
      exact hboxed y (hmade ∘ hnoArrivals.get?_eq_none.2)
        ((hnoArrivals.accepted y).symm.trans hnone)
    have hb := (hbefore.leads (hleads.goesOn hdone next)).visits.public_of_foreign
    refine ⟨hboxed', fun x hx hnone => ?_⟩
    have hheld := hboxed'.retentive hb.public.kept.balanced
    exact hspent x (World.IsSpent.of_noArrivals hx hnoArrivals hheld hnone)
      ((hnoArrivals.accepted x).symm.trans hnone)

theorem VisitsHome.retentive (h : VisitsHome script.start m) : m.world.Retentive :=
  h.boxed.1.retentive h.visits.public_of_foreign.public.kept.balanced

end Machine

end Fibers
