import Fibers.Proofs.Arrivals

/-!
The lines of drivers. Whoever waits for all calls of a driver comes to stand at the end of
the driver's line, and the driver serves the line from its front: it resumes one of those
who wait, whose await comes back at once, before it turns to the next one. So as long as
only tasks of the scheduler that a driver feeds wait for all its calls, the awaits come
back in the order in which they were made, whatever else is done through the driver.
-/

namespace Fibers

/-- The driver all of whose calls an await waits for. -/
def AwaitKind.all? : AwaitKind → Option DriverId
  | .all d => some d
  | _ => none

theorem AwaitKind.eq_of_all? {kind : AwaitKind} {d : DriverId} (h : kind.all? = some d) :
    kind = .all d := by
  cases kind <;> cases h
  rfl

/-- The handle of an await for all calls of a driver, where it is made. -/
def Mark.joins? (d : DriverId) : Mark → Option HandleRef
  | .opened x plan => if plan.kind.all? = some d then some x else none
  | _ => none

/-- The handle of an await that comes back. -/
def Mark.returns? : Mark → Option HandleRef
  | .awaited x _ => some x
  | _ => none

namespace World

variable {a b w : World} {x : HandleRef} {d : DriverId}

/-- The awaits for all calls of a driver, in the order in which they were made. -/
def joined (w : World) (d : DriverId) : List HandleRef := w.told (Mark.joins? d)

/-- Those of them that came back, in the order in which they did. -/
def served (w : World) (d : DriverId) : List HandleRef :=
  (w.told Mark.returns?).filter (· ∈ w.joined d)

theorem mem_told {α : Type} {read : Mark → Option α} {value : α} :
    value ∈ w.told read ↔ ∃ told, .mark told ∈ w.history.toList ∧ read told = some value := by
  rw [told, List.mem_filterMap]
  constructor
  · rintro ⟨happening, member, hread⟩
    cases happening with
    | mark told => exact ⟨told, member, hread⟩
    | entry | event => cases hread
  · rintro ⟨told, member, hread⟩
    exact ⟨_, member, hread⟩

theorem mem_joined : x ∈ w.joined d ↔ ∃ plan ∈ w.opened x, plan.kind = .all d := by
  simp only [joined, opened, mem_told]
  constructor
  · rintro ⟨told, member, hread⟩
    cases told with
    | opened y plan =>
      rw [Mark.joins?] at hread
      split at hread
      next hall =>
        cases hread
        exact ⟨plan, ⟨_, member, if_pos rfl⟩, AwaitKind.eq_of_all? hall⟩
      next => cases hread
    | _ => cases hread
  · rintro ⟨plan, ⟨told, member, hread⟩, hall⟩
    cases told with
    | opened y other =>
      rw [Mark.opened?] at hread
      split at hread
      next heq =>
        cases hread
        subst heq
        exact ⟨_, member, if_pos (by rw [hall]; rfl)⟩
      next => cases hread
    | _ => cases hread

theorem mem_returns : x ∈ w.told Mark.returns? ↔ w.awaited x ≠ [] := by
  rw [← List.length_pos_iff, List.length_pos_iff_exists_mem]
  simp only [awaited, mem_told]
  constructor
  · rintro ⟨told, member, hread⟩
    cases told with
    | awaited y resumption =>
      cases hread
      exact ⟨resumption, _, member, if_pos rfl⟩
    | _ => cases hread
  · rintro ⟨resumption, told, member, hread⟩
    cases told with
    | awaited y other =>
      rw [Mark.awaited?] at hread
      split at hread
      next heq => exact ⟨_, member, congrArg some heq⟩
      next => cases hread
    | _ => cases hread

/-- If the readings of a family see nothing new, no reading does that sees no more than
they do. -/
theorem Remembers.told_eq {α ι β : Type} {read : Mark → Option α} (h : a.Remembers b)
    (reads : ι → Mark → Option β) (hsame : ∀ i, b.told (reads i) = a.told (reads i))
    (hread : ∀ told, (∀ i, reads i told = none) → read told = none) :
    b.told read = a.told read := by
  obtain ⟨news, hnews⟩ := h
  have hnone : ∀ i, news.filterMap (Happening.read (reads i)) = [] := fun i => by
    have hboth := hsame i
    rwa [told, ← hnews, List.filterMap_append, told, List.append_right_eq_self] at hboth
  rw [told, ← hnews, List.filterMap_append, told, List.append_right_eq_self,
    List.filterMap_eq_nil_iff]
  intro happening member
  cases happening with
  | mark told => exact hread told fun i => List.filterMap_eq_nil_iff.1 (hnone i) _ member
  | entry | event => rfl

end World

theorem notes_returns? : Machine.Notes Mark.returns? := by
  refine ⟨fun told h => ?_, fun _ _ => rfl, fun _ _ => rfl⟩
  cases told <;> first | rfl | exact h.elim

theorem returns?_of_unheard {told : Mark} (h : ∀ x, told.awaited? x = none) :
    told.returns? = none := by
  cases told with
  | awaited x resumption =>
    have hread := h x
    rw [Mark.awaited?, if_pos rfl] at hread
    cases hread
  | _ => rfl

theorem joins?_of_unheard {told : Mark} (h : ∀ x, told.opened? x = none) (d : DriverId) :
    told.joins? d = none := by
  cases told with
  | opened x plan =>
    have hread := h x
    rw [Mark.opened?, if_pos rfl] at hread
    cases hread
  | _ => rfl

theorem minds_joins? (d : DriverId) : Machine.Minds (Mark.joins? d) := by
  refine ⟨⟨fun told h => ?_, fun _ _ => rfl, fun _ _ => rfl⟩, fun _ _ => rfl⟩
  cases told <;> first | rfl | exact h.elim

namespace Machine

variable {m m' : Machine} {script : Script} {x : HandleRef} {d : DriverId}
  {kin : World → SchedulerId → Prop} {frames : List Frame} {w : World}

/-! ### Who joins the line and who leaves it -/

/-- In this step a fiber makes an await for all calls of the driver. -/
structure Joins (m : Machine) (d : DriverId) (x : HandleRef) (m' : Machine) : Prop where
  unmade : m.world.handles.get? x = none
  joined : m'.world.joined d = m.world.joined d ++ [x]
  listed : m'.world.waiters d = m.world.waiters d ++ [x]
  advances : m.control = .advance
  leaves : ∃ fiber exit, m'.control = .back fiber exit

theorem Performs.advances {action : Action} (h : m.Performs action) : m.control = .advance := by
  obtain ⟨wrapped, hnext, -⟩ := h
  rw [nextAction?] at hnext
  split at hnext
  next hcontrol _ => exact hcontrol
  next => cases hnext

theorem Sound.joins (hm : m.Sound True) (hstep : m.step? = some m') (d : DriverId) :
    m'.world.joined d = m.world.joined d ∨ ∃ x, m.Joins d x m' := by
  have hmoves : Moves m.Performs m m' :=
    step_moves hstep hm fun action haction => ⟨action, haction, rfl⟩
  have hremembers : m.world.Remembers m'.world := (Follows.steps hstep).leads.remembers hm
  have hnone : ∀ {plan : AwaitPlan}, plan.kind.all? ≠ some d →
      ∀ x, Mark.joins? d (.opened x plan) = none :=
    fun hplan x => if_neg hplan
  rcases (hm.turns hmoves).told hm (minds_joins? d) fun _ _ _ havoids =>
      hremembers.told_eq Mark.opened? (havoids _ hm.kept.balanced.not_shows_next).opened
        fun told h => joins?_of_unheard h d with
    hsame | ⟨x, plan, w, hopens, hopening, htold⟩ | ⟨-, -, -, x, -,
      resumption, -, -, -, -, -, htold⟩
  · exact .inl hsame
  · by_cases hall : plan.kind.all? = some d
    · have hkind := AwaitKind.eq_of_all? hall
      rw [Mark.joins?, if_pos hall] at htold
      cases hopening with
      | plain hplain => rw [hkind] at hplain; cases hplain
      | stranded hcaller => rw [hkind] at hcaller; cases hcaller
      | hosted huses hdriver hlisted hrunning hhandles hcontrol =>
        rw [hkind] at hdriver
        cases hdriver
        obtain ⟨action, position, hperforms, -⟩ := huses
        exact .inr ⟨x, hopens.unmade, htold, hlisted hkind, hperforms.advances, _, _, hcontrol⟩
    · rw [hnone hall] at htold
      exact .inl (htold.trans (List.append_nil _))
  · exact .inl (htold.trans (List.append_nil _))

/-- An await comes back where control has come to its resumption. -/
theorem Sound.returns (hm : m.Sound True) (hstep : m.step? = some m') :
    m'.world.told Mark.returns? = m.world.told Mark.returns? ∨
      ∃ x plan frames resumption, m.top = .awaiting x plan :: frames ∧
        m.control = .resumed resumption ∧
        m'.control.IsCode ∧ m'.world.told Mark.returns? = m.world.told Mark.returns? ++ [x] := by
  have hmoves : Moves m.Performs m m' :=
    step_moves hstep hm fun action haction => ⟨action, haction, rfl⟩
  have hremembers : m.world.Remembers m'.world := (Follows.steps hstep).leads.remembers hm
  rcases (hm.turns hmoves).tells hm notes_returns? fun _ _ _ havoids =>
      hremembers.told_eq Mark.awaited? (havoids _ hm.kept.balanced.not_shows_next).awaited
        fun told => returns?_of_unheard with
    hsame | ⟨x, plan, w, hopens, hopening, htold⟩ | ⟨-, -, -, x, -,
      resumption, -, -, -, -, -, htold⟩ |
      ⟨x, plan, frames, resumption, htop, hresumed, hcode, htold⟩
  · exact .inl hsame
  · exact .inl (htold.trans (List.append_nil _))
  · exact .inl (htold.trans (List.append_nil _))
  · exact .inr ⟨x, plan, frames, resumption, htop, hresumed, hcode, htold⟩

/-! ### The line stays in order -/

/-- The await that control has come to with its resumption. -/
def returning? (m : Machine) : Option HandleRef :=
  match m.control, m.top with
  | .resumed _, .awaiting x _ :: _ => some x
  | _, _ => none

theorem returning?_eq_some :
    m.returning? = some x ↔ ∃ resumption plan frames, m.control = .resumed resumption ∧
      m.top = .awaiting x plan :: frames := by
  rw [returning?]
  constructor
  · intro h
    split at h
    next resumption y plan frames hcontrol htop =>
      cases h
      exact ⟨resumption, plan, frames, hcontrol, htop⟩
    next => cases h
  · rintro ⟨resumption, plan, frames, hcontrol, htop⟩
    simp only [hcontrol, htop]

theorem returning?_eq_none (h : ∀ resumption, m.control ≠ .resumed resumption) :
    m.returning? = none := by
  rw [Option.eq_none_iff_forall_ne_some]
  intro x hx
  obtain ⟨resumption, -, -, hcontrol, -⟩ := returning?_eq_some.1 hx
  exact h resumption hcontrol

theorem returning?_of_code (h : m.control.IsCode) : m.returning? = none := by
  refine returning?_eq_none fun resumption heq => ?_
  rw [heq] at h
  exact h

theorem returning?_of_advance (h : m.control = .advance) : m.returning? = none :=
  returning?_of_code (by rw [h]; trivial)

/-- An await comes back in the step after control has come to it with its resumption. -/
theorem Sound.returning_step (hm : m.Sound True) (hstep : m.step? = some m') :
    m.returning? = none ∧ m'.world.told Mark.returns? = m.world.told Mark.returns? ∨
      ∃ x, m.returning? = some x ∧ m'.control.IsCode ∧
        m'.world.told Mark.returns? = m.world.told Mark.returns? ++ [x] := by
  rcases hm.returns hstep with
    hsame | ⟨x, plan, frames, resumption, htop, hresumed, hcode, hreturned⟩
  · refine .inl ⟨?_, hsame⟩
    rw [Option.eq_none_iff_forall_ne_some]
    intro x hx
    obtain ⟨resumption, plan, frames, hresumed, htop⟩ := returning?_eq_some.1 hx
    obtain ⟨w, control, hnext, -, honce⟩ := hm.returns_once htop hresumed
    rw [hstep, Option.some.injEq] at hnext
    have hback : x ∈ m'.world.told Mark.returns? :=
      World.mem_returns.2 (by rw [hnext, honce .refl]; exact nofun)
    exact World.mem_returns.1 (hsame ▸ hback) (hm.awaited_nil htop)
  · exact .inr
      ⟨x, returning?_eq_some.2 ⟨resumption, plan, frames, hresumed, htop⟩, hcode, hreturned⟩

/-- Who waits for all calls of the driver is back, or comes back just now, or stands in the
line, one after the other in the order in which they came. -/
def Ordered (d : DriverId) (m : Machine) : Prop :=
  m.world.joined d =
    m.world.served d ++ (m.returning?.toList.filter (· ∈ m.world.joined d) ++ m.line d)

/-- In the line stand fibers that made their awaits for the driver. -/
theorem Hosted.joined_of_line (h : m.Hosted) (hx : x ∈ m.line d) : m.world.opened x ≠ [] ∧
    x ∈ m.world.joined d := by
  have hall : m.world.WaitsForAll x d := by
    rcases List.mem_append.1 hx with member | member
    · obtain ⟨phase, hphase, hx⟩ := mem_due.1 member
      exact h.settling hphase hx
    · exact h.waiters member
  obtain ⟨plan, hopened, hkind⟩ := hall
  exact ⟨by simp [hopened], World.mem_joined.2 ⟨plan, by simp [hopened], hkind⟩⟩

theorem Hosted.held_of_line (h : m.Hosted) (hx : x ∈ m.line d) :
    m.Held (fun kind => kind.all?.isSome) d x := by
  obtain ⟨plan, hopened, hdriver⟩ := h.opened (.lined hx)
  obtain ⟨other, member, hkind⟩ := World.mem_joined.1 (h.joined_of_line hx).2
  rw [hopened, List.mem_singleton] at member
  exact ⟨.lined hx, plan, hopened, by rw [← member, hkind]; rfl⟩

/-- A fiber comes to the end of the line. -/
theorem Ordered.joins (h : Ordered d m) (hm : m.Sound True) (hhosted : m.Hosted)
    (hworks : Works m m') (hreturned : m'.world.told Mark.returns? = m.world.told Mark.returns?)
    (hjoins : m.Joins d x m') : Ordered d m' := by
  obtain ⟨fiber, exit, hback⟩ := hjoins.leaves
  have hnone : m.world.opened x = [] := opened_nil hm hjoins.unmade
  have hnew : x ∉ m.line d := fun member => (hhosted.joined_of_line member).1 hnone
  have hstands : x ∈ m'.line d := by
    refine List.mem_append_right _ ?_
    rw [hjoins.listed]
    exact List.mem_append_right _ (List.mem_singleton_self _)
  have hline : m'.line d = m.line d ++ [x] := by
    rcases hworks.line d with hsame | ⟨y, plan, w, -, -, -, heq⟩ | ⟨y, waiters, -, heq⟩
    · exact absurd (hsame ▸ hstands) hnew
    · rw [heq, List.mem_append, List.mem_singleton] at hstands
      rw [heq, hstands.resolve_left hnew]
    · exact absurd (heq ▸ List.mem_cons_of_mem _ hstands) hnew
  have hserved : m'.world.served d = m.world.served d := by
    rw [World.served, hreturned, World.served]
    refine List.filter_congr fun y hy => ?_
    rw [hjoins.joined, decide_eq_decide, List.mem_append, List.mem_singleton]
    refine or_iff_left fun heq => World.mem_returns.1 hy ?_
    have hle := hm.kept.balanced.posts y
    have hopened := hm.kept.balanced.opened y
    subst heq
    rw [if_neg (by simpa [HandleTable.get?] using hjoins.unmade)] at hopened
    refine List.length_eq_zero_iff.1 ?_
    rw [World.length_awaited]
    omega
  rw [Ordered, hserved, hline, hjoins.joined,
    returning?_eq_none fun _ heq => by rw [hback] at heq; cases heq]
  have hbefore := h
  rw [Ordered, returning?_of_advance hjoins.advances] at hbefore
  conv_lhs => rw [hbefore]
  simp only [Option.toList_none, List.filter_nil, List.nil_append, List.append_assoc]

/-- Whoever stands first is resumed. -/
theorem Ordered.leaves (h : Ordered d m) (hm : m.Sound True) (hhosted : m.Hosted)
    (ha : m.Attends (fun w s => w.fedBy d = some s) (fun kind => kind.all?.isSome) d)
    (hstep : m.step? = some m') (hjoined : m'.world.joined d = m.world.joined d)
    (hreturned : m'.world.told Mark.returns? = m.world.told Mark.returns?)
    {waiters : List HandleRef} (htop : m.top = .driving d (.settle (x :: waiters)) :: frames)
    (hadvance : m.control = .advance) (hline : m.line d = x :: m'.line d) : Ordered d m' := by
  have hfirst : x ∈ m.line d := hline ▸ List.mem_cons_self ..
  obtain ⟨t, stack, loop, w, hhands, -⟩ := (GivesAway.waiter htop hstep).hands hm
  obtain ⟨fiber, s, hparks, hs⟩ := ha.parksFor (hhosted.held_of_line hfirst) hadvance
  cases hs.symm.trans hhands.fed
  have harrives := hhands.arrives hm hstep hparks
  obtain ⟨plan, rest, -, -, htop', -⟩ := harrives.once
  have hserved : m'.world.served d = m.world.served d := by
    rw [World.served, hreturned, hjoined, World.served]
  have hreturning : m'.returning? = some x :=
    returning?_eq_some.2 ⟨_, plan, rest, harrives.resumed, htop'⟩
  have hbefore := h
  rw [Ordered, returning?_of_advance hadvance, hline] at hbefore
  rw [Ordered, hserved, hjoined, hreturning, Option.toList_some, List.filter_singleton,
    decide_eq_true (hhosted.joined_of_line hfirst).2]
  simpa using hbefore

/-- Nobody comes to stand in the line and nobody leaves it. -/
theorem Ordered.stays (h : Ordered d m) (hm : m.Sound True) (hm' : m'.Sound True)
    (hhosted' : m'.Hosted) (ha' : m'.Attends kin (fun kind => kind.all?.isSome) d)
    (hstep : m.step? = some m') (hjoined : m'.world.joined d = m.world.joined d)
    (hline : m'.line d = m.line d) : Ordered d m' := by
  rcases hm.returning_step hstep with ⟨hbefore, hsame⟩ | ⟨x, hreturning, hcode, hreturned⟩
  · have hserved : m'.world.served d = m.world.served d := by
      rw [World.served, hsame, hjoined, World.served]
    -- Nobody who stands in the line is resumed, and nobody else waits for the driver.
    have hafter : m'.returning?.toList.filter (· ∈ m'.world.joined d) = [] := by
      refine List.filter_eq_nil_iff.2 fun x hx hmember => ?_
      rw [Option.mem_toList] at hx
      obtain ⟨resumption, plan, frames, hresumed, htop⟩ := returning?_eq_some.1 hx
      have hunhanded := hm'.awaited_nil htop
      rw [decide_eq_true_iff, hjoined, h, hbefore, Option.toList_none, List.filter_nil,
        List.nil_append, List.mem_append, ← hserved, ← hline] at hmember
      rcases hmember with hmember | hmember
      · exact World.mem_returns.1 (List.mem_filter.1 hmember).1 hunhanded
      · cases ha'.expects (hhosted'.held_of_line hmember) with
        | parked hcell hslot hawaits =>
          exact hm'.not_awaits_of_top htop (.parked hcell hslot) hawaits
        | comes hcell hslot hcontrol => rw [hresumed] at hcontrol; cases hcontrol
    have hbefore' := h
    rw [Ordered, hbefore] at hbefore'
    rw [Ordered, hafter, hserved, hline, hjoined]
    exact hbefore'
  · have hbefore := h
    rw [Ordered, hreturning, Option.toList_some, World.served, ← List.append_assoc,
      ← List.filter_append, ← hreturned] at hbefore
    rw [Ordered, returning?_of_code hcode, hline, World.served, hjoined]
    exact hbefore

theorem Ordered.moves (h : Ordered d m) (hm : m.Sound True) (hm' : m'.Sound True)
    (hhosted : m.Hosted) (hhosted' : m'.Hosted)
    (ha : m.Attends (fun w s => w.fedBy d = some s) (fun kind => kind.all?.isSome) d)
    (ha' : m'.Attends (fun w s => w.fedBy d = some s) (fun kind => kind.all?.isSome) d)
    (hstep : m.step? = some m') :
    Ordered d m' := by
  have hmoves : Moves (fun _ => True) m m' := step_moves hstep hm fun _ _ => trivial
  have hworks := hm.works hmoves
  have hsilent : m.control = .advance →
      m'.world.told Mark.returns? = m.world.told Mark.returns? := fun hadvance => by
    rcases hm.returns hstep with hsame | ⟨-, -, -, resumption, -, hresumed, -⟩
    · exact hsame
    · rw [hadvance] at hresumed
      cases hresumed
  rcases hm.joins hstep d with hjoined | ⟨x, hjoins⟩
  · rcases hworks.line d with
      hline | ⟨x, plan, w, hopens, hhistory, hkind, hline⟩ | ⟨x, waiters,
      ⟨hadvance, frames, htop⟩, hline⟩
    · exact h.stays hm hm' hhosted' ha' hstep hjoined hline
    · have hmember : x ∈ m'.world.joined d :=
        World.mem_joined.2
          ⟨plan, by rw [opened_of_opens hm hopens hhistory]; exact List.mem_singleton_self _, hkind⟩
      obtain ⟨other, hother, -⟩ := World.mem_joined.1 (hjoined ▸ hmember)
      rw [opened_nil hm hopens.unmade] at hother
      cases hother
    · exact h.leaves hm hhosted ha hstep hjoined (hsilent hadvance) htop hadvance hline
  · exact h.joins hm hhosted hworks (hsilent hjoins.advances) hjoins

/-! ### Whole sessions -/

/-- Whoever waits for all calls of the driver is a task of the scheduler that the driver
feeds. -/
def WaitsAtHome (d : DriverId) (m : Machine) : Prop :=
  ∀ running ∈ m.asker? (fun kind => kind.all?.isSome) d, running.home.isSome ∧
    running.home = m.world.fedBy d

instance (d : DriverId) (m : Machine) : Decidable (WaitsAtHome d m) :=
  inferInstanceAs (Decidable (∀ running ∈ m.asker? (fun kind => kind.all?.isSome) d,
    running.home.isSome ∧ running.home = m.world.fedBy d))

theorem VisitsThrough.attends_line (h : VisitsThrough (WaitsAtHome d) script.start m) :
    m.Attends (fun w s => w.fedBy d = some s) (fun kind => kind.all?.isSome) d := by
  refine VisitsThrough.attends (h.imp fun m hused running member => ?_) fun hfed hs => hfed hs
  obtain ⟨hsome, hhome⟩ := hused running member
  obtain ⟨s, hs⟩ := Option.isSome_iff_exists.1 hsome
  exact ⟨s, hs, hhome.symm.trans hs⟩

theorem Ordered.between (h : Ordered d m) (hm : m.Sound True) (hdone : m.Done)
    (hbetween : m.Between w) {root : List Frame} (hroot : ∀ frame ∈ root, frame.IsCode) :
    Ordered d ⟨w, [], root, .advance⟩ := by
  have hphases : phases ⟨w, [], root, .advance⟩ = [] :=
    (PlainStack.of_code false hroot).filterMap_driving?
  have hidle : m.phases = [] := by
    rw [phases, hdone.2]
    rfl
  have hjoined : w.joined d = m.world.joined d := hbetween.noArrivals.told (minds_joins? d).heeds
  have hserved : w.served d = m.world.served d := by
    rw [World.served, hjoined, hbetween.noArrivals.told notes_returns?.heeds, World.served]
  have hbefore := h
  rw [Ordered, returning?_of_code (hm.done hdone).2.2, line, due_of_idle hidle] at hbefore
  rw [Ordered, returning?_of_advance rfl, line, due_of_idle hphases, hbetween.sameHosts.waiters]
  simp only [hjoined, hserved]
  exact hbefore

theorem Ordered.stirs (h : Ordered d m) (hstirs : m.world.Stirs w) : Ordered d (m.withWorld w) := by
  rw [Ordered, Machine.line, withWorld_world, hstirs.sameHosts.waiters, hstirs.rest]
  exact h

theorem VisitsThrough.ordered (h : VisitsThrough (WaitsAtHome d) script.start m) : Ordered d m := by
  induction h with
  | begins action =>
    obtain ⟨hdrivers, -⟩ := World.drivers_start script
    have hjoined : (Script.begin script.start action).world.joined d = [] :=
      World.told_start script _
    rw [Ordered, hjoined, World.served, returning?_of_advance rfl, line, due_of_idle rfl,
      Script.begin, World.waiters, World.driver?, hdrivers, World.told_start]
    rfl
  | @follows a b ha hkind hnext ih =>
    have hb := ha.follows hkind hnext
    have hsound : a.Sound True := ha.visits.sound fun _ _ _ _ => trivial
    cases hnext with
    | steps hstep =>
      exact ih.moves hsound (hb.visits.sound fun _ _ _ _ => trivial) ha.visits.hosted
        hb.visits.hosted ha.attends_line hb.attends_line hstep
    | stirs hstirs => exact ih.stirs hstirs
    | goesOn hdone action =>
      exact ih.between hsound hdone .shows fun frame member => List.mem_singleton.1 member ▸ trivial
    | closes hdone => exact ih.between hsound hdone .closes fun _ member => by cases member

/-- In this step the run of the driver is over: its loop, which is the frame on top, is gone. -/
structure RunsOut (m : Machine) (d : DriverId) (m' : Machine) : Prop where
  step : m.step? = some m'
  loop : ∃ frames, m.top = .driving d .drain :: frames ∧ m'.top = frames

/-- A run ends where its run loop is done, no call of the driver is in flight and nobody waits for
all of them. What is left then is dropped. -/
theorem Sound.ends_of_runsOut (hm : m.Sound True) (h : m.RunsOut d m') :
    ∃ driver n frames, m.top = .driving d .drain :: frames ∧ m.control = .answer (.ok n) ∧
      m.world.driver? d = some driver ∧ driver.inFlight = 0 ∧ driver.waiting = [] ∧
        m' = m.goTo frames (((m.world.tell .driverIdle).closeAgenda).emit "host_run" (.text "ok"))
          .advance := by
  obtain ⟨hstep, frames, htop, htop'⟩ := h
  have hmoves : Moves (fun _ => True) m m' := step_moves hstep hm fun _ _ => trivial
  have hlonger : ∀ {frame : Frame} {w : World} {control : Control},
      (m.goTo (frame :: frames) w control).top ≠ frames := fun heq => by
    rw [goTo_top] at heq
    exact absurd (congrArg List.length heq) (by simp)
  cases hmoves with
  | ends htop₁ hcontrol hd hnone hwaiting =>
    rw [htop] at htop₁
    cases htop₁
    exact ⟨_, _, _, htop, hcontrol, hd, hnone, hwaiting, rfl⟩
  | @asksAgain e driver rest htop₁ hcontrol hd =>
    rw [htop] at htop₁
    cases htop₁
    rw [run] at htop'
    split at htop'
    · rw [withControl_eq, goTo_goTo, goTo_top] at htop'
      exact absurd htop' hlonger
    · rw [push_eq, goTo_goTo, goTo_advance, goTo_top] at htop'
      exact absurd (congrArg List.length htop') (by simp; omega)
  | goesOn htop₁ | settles htop₁ =>
    rw [htop] at htop₁
    cases htop₁
    exact absurd htop' hlonger
  | idle pushed w control htop₁ hlight =>
    rw [htop] at htop₁
    cases htop₁
    exact hlight.elim
  | acts htop₁ | registered htop₁ | concludes htop₁ | transferred htop₁ | receives htop₁
  | drains htop₁ | hears htop₁
    | resumes htop₁ | completes htop₁ | breaks htop₁ | completed htop₁ | leaves _ htop₁ =>
    rw [htop] at htop₁
    cases htop₁

/-- A run ends with success. Then no call of the driver is in flight and nobody waits for
all of them. -/
theorem Sound.runsOut (hm : m.Sound True) (h : m.RunsOut d m') :
    m'.world.waiters d = [] ∧ m'.world.inFlight d = 0 ∧ m'.phases = [] ∧ m'.control = .advance ∧
      m'.world.history.toList.getLast? = some (.entry none "host_run" (.text "ok")) := by
  obtain ⟨driver, n, frames, htop, hcontrol, hd, hnone, hwaiting, rfl⟩ := hm.ends_of_runsOut h
  have haccepts := hm.accepts
  rw [htop] at haccepts
  obtain ⟨hroot, hplain⟩ := haccepts.of_driving
  have hnoProgress :=
    (World.NoProgress.tell m.world (Event.isQuiet_driverIdle).1).trans
    (World.noProgress_closeAgenda _)
  have hcurrent : ((m.world.tell .driverIdle).closeAgenda).currentId = none := by
    rw [World.currentId, hnoProgress.current, hm.current, Sound.running_of_driving hm htop]
    rfl
  refine ⟨?_, ?_, ?_, rfl, ?_⟩
  · refine (World.waiters_closeAgenda (m.world.tell .driverIdle) d).trans ?_
    change m.world.waiters d = []
    rw [World.waiters, hd]
    exact hwaiting
  · refine (World.inFlight_closeAgenda (m.world.tell .driverIdle) d).trans ?_
    change m.world.inFlight d - _ = 0
    rw [World.inFlight, hd]
    exact (congrArg (· - _) hnone).trans (Nat.zero_sub _)
  · rw [phases_goTo_of_root hroot, hplain.filterMap_driving?]
  · rw [goTo_world, World.emit, hcurrent]
    simp

/-- No await for all calls of a driver is made twice. -/
theorem Visits.nodup_joined (h : Visits (fun _ => True) script.start m) (d : DriverId) :
    (m.world.joined d).Nodup := by
  refine h.follow (P := fun m => (m.world.joined d).Nodup) (fun action => ?_)
    fun a b ha hfollows ih => ?_
  · have hjoined : (Script.begin script.start action).world.joined d = [] :=
      World.told_start script _
    rw [hjoined]
    exact List.nodup_nil
  · have hbetween : ∀ {w}, a.Between w → (w.joined d).Nodup := fun hbetween => by
      rwa [World.joined, hbetween.noArrivals.told (minds_joins? d).heeds]
    cases hfollows with
    | steps hstep =>
      rcases ha.joins hstep d with hsame | ⟨x, hjoins⟩
      · exact hsame ▸ ih
      · rw [hjoins.joined, List.nodup_append]
        refine ⟨ih, List.nodup_singleton _, fun y hy z hz hyz => ?_⟩
        obtain ⟨plan, member, -⟩ := World.mem_joined.1 hy
        rw [hyz, List.mem_singleton.1 hz, opened_nil ha hjoins.unmade] at member
        cases member
    | stirs hstirs =>
      rw [withWorld_world, hstirs.rest]
      exact ih
    | goesOn hdone action => exact hbetween .shows
    | closes hdone => exact hbetween .closes

/-- How a driver serves those who wait for all its calls. -/
structure InOrder (d : DriverId) (m : Machine) : Prop where
  /-- Those who are back are the ones who came first, and came back in that order. -/
  order : m.world.served d <+: m.world.joined d
  /-- All the others stand in the line in the order in which they came, but for one who
  comes back just now. -/
  waiting : m.world.joined d =
    m.world.served d ++ (m.returning?.toList.filter (· ∈ m.world.joined d) ++ m.line d)
  /-- Nobody is there twice: who is back or comes back does not stand in the line any more. -/
  once : (m.world.joined d).Nodup
  /-- When the run of the driver ends, the list is empty and all are back. -/
  settled {m' : Machine} (hends : m.RunsOut d m') : m'.world.waiters d = [] ∧
    m'.world.served d = m'.world.joined d

/-- Those who wait for all calls of a driver come back in the order in which they came. -/
theorem waiters_are_served_in_order (h : VisitsThrough (WaitsAtHome d) script.start m) :
    InOrder d m where
  order := ⟨_, h.ordered.symm⟩
  waiting := h.ordered
  once := h.visits.nodup_joined d
  settled {m'} hends := by
    have hm : m.Sound True := h.visits.sound fun _ _ _ _ => trivial
    obtain ⟨hempty, -, hidle, hadvance, -⟩ := hm.runsOut hends
    obtain ⟨frames, htop, -⟩ := hends.loop
    -- In the step that ends a run nobody comes to wait.
    have hnobody : WaitsAtHome d m := fun running member => by
      simp [asker?, nextAction?, htop] at member
    have hordered := (h.follows hnobody (.steps hends.step)).ordered
    rw [Ordered, returning?_of_advance hadvance, line, due_of_idle hidle, hempty] at hordered
    exact ⟨hempty, by simpa using hordered.symm⟩

/-- Two fibers wait for all calls, and the one that is resumed first does so once more. -/
def waitAgain : Action :=
  .scope [.newDriver 0, .enqueue 0 [.awaitAll 0 .raise, .awaitAll 0 .raise],
    .enqueue 0 [.awaitAll 0 .raise, .sleep 0 3 .raise], .drive 0] false

/-- The state of that program after some steps, with one scheduler. -/
def queueing (steps : Nat) : Machine := (Script.begin Script.single.start waitAgain).settle steps

theorem visits_queueing {P : Machine → Prop} (steps : Nat) (h : ∀ i < steps, P (queueing i)) :
    VisitsThrough P Script.single.start (queueing steps) :=
  (VisitsThrough.begins waitAgain).settle steps h

/-- The run ends when the one that waits twice is back for the second time, after the other
one. -/
theorem waiters_of_two_rounds_are_back :
    (∀ i < 57, WaitsAtHome ⟨0⟩ (queueing i)) ∧ (queueing 57).RunsOut ⟨0⟩ (queueing 58) ∧
      (queueing 58).world.waiters ⟨0⟩ = [] ∧
      (queueing 58).world.served ⟨0⟩ = (queueing 58).world.joined ⟨0⟩ ∧
      (queueing 58).world.joined ⟨0⟩ = [⟨0⟩, ⟨1⟩, ⟨2⟩] := by
  have hused : ∀ i < 57, WaitsAtHome ⟨0⟩ (queueing i) := by decide +kernel
  have hstep : (queueing 57).step? = some (queueing 58) := by with_unfolding_all rfl
  have hends : (queueing 57).RunsOut ⟨0⟩ (queueing 58) :=
    ⟨hstep, (queueing 58).top, by with_unfolding_all rfl, rfl⟩
  obtain ⟨hempty, hserved⟩ := (waiters_are_served_in_order (visits_queueing 57 hused)).settled hends
  exact ⟨hused, hends, hempty, hserved, by decide +kernel⟩

end Machine

end Fibers
