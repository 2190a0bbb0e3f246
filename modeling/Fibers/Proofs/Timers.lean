import Mathlib.Data.List.Pairwise
import Mathlib.Data.List.Nodup
import Fibers.Host.Agenda

/-!
The clock of a driver. The host knows of each sleep that is under way what is left of it:
its turn is yet to come in which the timer is set, or the timer is set, or it has gone off.
So each sleep is over at one time that was known when it was issued.
-/

namespace Fibers

theorem countP_lt_countP {α : Type} {p q : α → Bool} {items : List α} {a : α}
    (h : ∀ b ∈ items, p b = true → q b = true) (member : a ∈ items) (hp : ¬p a = true)
    (hq : q a = true) : items.countP p < items.countP q := by
  obtain ⟨before, after, rfl⟩ := List.append_of_mem member
  have hbefore := List.countP_mono_left fun b hb => h b (List.mem_append_left _ hb)
  have hafter := List.countP_mono_left fun b hb =>
    h b (List.mem_append_right _ (List.mem_cons_of_mem _ hb))
  rw [List.countP_append, List.countP_append, List.countP_cons_of_neg hp,
    List.countP_cons_of_pos hq]
  omega

namespace Agenda

variable {agenda agenda' : Agenda} {wakes wakes' : HandleRef → Nat} {key made : Nat} {x : HandleRef}
  {work : Work} {d : DriverId}

/-- The calls that are to have a turn: now, or when their timers go off. -/
def turns (agenda : Agenda) : List Nat := agenda.ready ++ agenda.timers.map Timer.call

/-- What is left of a sleep agrees with the time at which it is to be over. -/
inductive Due (agenda : Agenda) (wakes : HandleRef → Nat) (key : Nat) (x : HandleRef) : Work → Prop
  | issued {milliseconds : Nat} (hready : key ∈ agenda.ready)
      (h : wakes x = agenda.now + milliseconds) : Due agenda wakes key x (.sleep milliseconds)
  | asleep (htimer : ⟨wakes x, key⟩ ∈ agenda.timers) : Due agenda wakes key x .asleep
  | woken (hready : key ∈ agenda.ready) (h : wakes x = agenda.now) : Due agenda wakes key x .asleep

/-- All calls that hold handles are sleeps, and each will be over in time. -/
structure Punctual (agenda : Agenda) (wakes : HandleRef → Nat) (made : Nat) : Prop where
  due : ∀ call ∈ agenda.calls, ∀ x work, call.state = .holding x work →
    agenda.Due wakes call.key x work
  once : agenda.turns.Nodup
  made : ∀ key ∈ agenda.turns, key < made
  keys : (agenda.calls.map HostCall.key).Pairwise (· < ·)
  sorted : agenda.timers.Pairwise fun a b => a.deadline ≤ b.deadline
  ahead : ∀ timer ∈ agenda.timers, agenda.now ≤ timer.deadline

theorem punctual_empty (wakes : HandleRef → Nat) (made : Nat) :
    Agenda.empty.Punctual wakes made where
  due _ member := absurd member List.not_mem_nil
  once := List.nodup_nil
  made _ member := absurd member List.not_mem_nil
  keys := .nil
  sorted := .nil
  ahead _ member := absurd member List.not_mem_nil

theorem Due.congr (h : agenda.Due wakes key x work) (heq : wakes' x = wakes x) :
    agenda.Due wakes' key x work := by
  cases h with
  | issued hready h => exact .issued hready (heq.trans h)
  | asleep htimer => exact .asleep (by rwa [heq])
  | woken hready h => exact .woken hready (heq.trans h)

/-- Only the times of sleeps that are under way matter. -/
theorem Punctual.congr (h : agenda.Punctual wakes made) {made' : Nat} (hmade : made ≤ made')
    (heq : ∀ call ∈ agenda.calls, ∀ x work, call.state = .holding x work → wakes' x = wakes x) :
    agenda.Punctual wakes' made' where
  due call member x work hstate :=
    (h.due call member x work hstate).congr (heq call member x work hstate)
  once := h.once
  made key member := Nat.lt_of_lt_of_le (h.made key member) hmade
  keys := h.keys
  sorted := h.sorted
  ahead := h.ahead

/-- Calls with one key are one call. -/
theorem Punctual.call_eq (h : agenda.Punctual wakes made) {call other : HostCall}
    (hcall : call ∈ agenda.calls) (hother : other ∈ agenda.calls) (hkey : call.key = other.key) :
    call = other := by
  have hnodup : (agenda.calls.map HostCall.key).Nodup := h.keys.imp Nat.ne_of_lt
  exact List.inj_on_of_nodup_map hnodup hcall hother hkey

/-! ### Turns -/

/-- The call at the front of the ready queue has its turn, and is not ready any more. -/
def later (agenda : Agenda) (ready : List Nat) : Agenda := { agenda with ready }

theorem turns_later {ready : List Nat} (hready : agenda.ready = key :: ready) :
    agenda.turns = key :: (agenda.later ready).turns := by
  rw [turns, hready]
  rfl

/-- Whatever else a turn does, other calls have their turns as before. -/
theorem Punctual.later_due (h : agenda.Punctual wakes made) {ready : List Nat}
    (hready : agenda.ready = key :: ready) {call : HostCall} (member : call ∈ agenda.calls)
    (hstate : call.state = .holding x work) (hother : call.key ≠ key) :
    (agenda.later ready).Due wakes call.key x work := by
  have hnoneReturned : call.key ∈ agenda.ready → call.key ∈ ready := fun hmem => by
    rw [hready] at hmem
    exact (List.mem_cons.1 hmem).resolve_left hother
  cases h.due call member x work hstate with
  | issued hmem heq => exact .issued (hnoneReturned hmem) heq
  | asleep htimer => exact .asleep htimer
  | woken hmem heq => exact .woken (hnoneReturned hmem) heq

/-- Where the call that has its turn holds nothing, nothing happens. -/
theorem Punctual.skips (h : agenda.Punctual wakes made) {ready : List Nat}
    (hready : agenda.ready = key :: ready)
    (hnone : ∀ call ∈ agenda.calls, call.key = key → call.state = .handing) :
    (agenda.later ready).Punctual wakes made where
  due call member x work hstate := by
    refine h.later_due hready member hstate fun hkey => ?_
    rw [hnone call member hkey] at hstate
    cases hstate
  once := (List.nodup_cons.1 (turns_later hready ▸ h.once)).2
  made other member :=
    h.made other (by rw [turns_later hready]; exact List.mem_cons_of_mem _ member)
  keys := h.keys
  sorted := h.sorted
  ahead := h.ahead

theorem map_key_setState (agenda : Agenda) (key : Nat) (state : CallState) :
    (agenda.setState key state).calls.map HostCall.key = agenda.calls.map HostCall.key := by
  rw [setState, List.map_map]
  refine List.map_congr_left fun call _ => ?_
  simp only [Function.comp_apply]
  split <;> rfl

theorem map_key_setWork (agenda : Agenda) (key : Nat) (work : Work) :
    (agenda.setWork key work).calls.map HostCall.key = agenda.calls.map HostCall.key := by
  rw [setWork, List.map_map]
  refine List.map_congr_left fun call _ => ?_
  simp only [Function.comp_apply]
  split
  · split <;> rfl
  · rfl

/-- A call hands its outcome over: it was to be over by now. -/
theorem Punctual.hands (h : agenda.Punctual wakes made) {ready : List Nat}
    (hready : agenda.ready = key :: ready) :
    ((agenda.later ready).setState key .handing).Punctual wakes made where
  due call member x work hstate := by
    obtain ⟨old, hold, rfl⟩ := List.mem_map.1 member
    split at hstate
    · cases hstate
    next hother =>
      rw [if_neg hother]
      cases h.later_due hready hold hstate hother with
      | issued hmem heq => exact .issued hmem heq
      | asleep htimer => exact .asleep htimer
      | woken hmem heq => exact .woken hmem heq
  once := (List.nodup_cons.1 (turns_later hready ▸ h.once)).2
  made other member :=
    h.made other (by rw [turns_later hready]; exact List.mem_cons_of_mem _ member)
  keys := by rw [map_key_setState]; exact h.keys
  sorted := h.sorted
  ahead := h.ahead

/-- A call that has its turn and has its outcome is over just now. -/
theorem Punctual.wakes_now (h : agenda.Punctual wakes made) {ready : List Nat}
    (hready : agenda.ready = key :: ready) {call : HostCall} (member : call ∈ agenda.calls)
    (hkey : call.key = key) (hstate : call.state = .holding x work)
    (hover : work = .asleep ∨ work = .sleep 0) : wakes x = agenda.now := by
  subst hkey
  have hdue := h.due call member x work hstate
  rcases hover with rfl | rfl
  · cases hdue with
    | asleep htimer =>
      have honce := h.once
      rw [turns, hready] at honce
      exact absurd (List.mem_append_right _ (List.mem_map.2 ⟨_, htimer, rfl⟩))
        (List.nodup_cons.1 honce).1
    | woken _ heq => exact heq
  · cases hdue with
    | issued _ heq => exact heq

/-! ### Timers -/

theorem insertTimer_perm (timer : Timer) (timers : List Timer) :
    (insertTimer timer timers).Perm (timer :: timers) := by
  induction timers with
  | nil => exact .refl _
  | cons first rest ih =>
    rw [insertTimer]
    split
    · exact .refl _
    · exact (ih.cons first).trans (.swap ..)

theorem sorted_insertTimer {timer : Timer} {timers : List Timer}
    (h : timers.Pairwise fun a b => a.deadline ≤ b.deadline) :
    (insertTimer timer timers).Pairwise fun a b => a.deadline ≤ b.deadline := by
  induction timers with
  | nil => exact List.pairwise_singleton _ _
  | cons first rest ih =>
    obtain ⟨hfirst, hrest⟩ := List.pairwise_cons.1 h
    rw [insertTimer]
    split
    next hless =>
      refine List.pairwise_cons.2 ⟨fun other member => ?_, h⟩
      rcases List.mem_cons.1 member with rfl | hmem
      · exact Nat.le_of_lt hless
      · exact Nat.le_trans (Nat.le_of_lt hless) (hfirst other hmem)
    next hless =>
      refine List.pairwise_cons.2 ⟨fun other member => ?_, ih hrest⟩
      rcases List.mem_cons.1 ((insertTimer_perm timer rest).mem_iff.1 member) with rfl | hmem
      · exact Nat.le_of_not_lt hless
      · exact hfirst other hmem

/-- A sleep that has its turn sets its timer. -/
theorem Punctual.sleeps (h : agenda.Punctual wakes made) {ready : List Nat}
    (hready : agenda.ready = key :: ready) {call : HostCall} {milliseconds : Nat}
    (member : call ∈ agenda.calls) (hkey : call.key = key)
    (hstate : call.state = .holding x (.sleep milliseconds)) :
    ((agenda.later ready).sleep key milliseconds).Punctual wakes made := by
  subst hkey
  have hperm := insertTimer_perm ⟨agenda.now + milliseconds, call.key⟩ agenda.timers
  have hturns : ((agenda.later ready).sleep call.key milliseconds).turns.Perm agenda.turns := by
    rw [turns_later hready]
    change (ready ++ (insertTimer _ _).map Timer.call).Perm
      (call.key :: (ready ++ agenda.timers.map Timer.call))
    exact ((hperm.map Timer.call).append_left ready).trans List.perm_middle
  have hwakes : wakes x = agenda.now + milliseconds := by
    cases h.due call member x _ hstate with
    | issued _ heq => exact heq
  refine ⟨fun other hother y work hwork => ?_, hturns.nodup_iff.2 h.once, fun key hkey => h.made key
    (hturns.mem_iff.1 hkey), ?_, sorted_insertTimer h.sorted, fun timer htimer => ?_⟩
  · obtain ⟨old, hold, rfl⟩ := List.mem_map.1 hother
    split at hwork
    next z before hbefore =>
      split at hwork
      next hsame =>
        rw [if_pos hsame]
        obtain rfl := h.call_eq hold member hsame
        rw [hstate] at hbefore
        cases hbefore
        cases hwork
        exact .asleep (hperm.mem_iff.2 (hwakes ▸ List.mem_cons_self ..))
      next hother =>
        rw [if_neg hother]
        cases h.later_due hready hold hwork hother with
        | issued hmem heq => exact .issued hmem heq
        | asleep htimer => exact .asleep (hperm.mem_iff.2 (List.mem_cons_of_mem _ htimer))
        | woken hmem heq => exact .woken hmem heq
    next hhanding =>
      rw [hhanding] at hwork
      cases hwork
  · exact (map_key_setWork ..).symm ▸ h.keys
  · rcases List.mem_cons.1 (hperm.mem_iff.1 htimer) with rfl | hmem
    · exact Nat.le_add_right ..
    · exact h.ahead timer hmem

/-- When no call is ready the clock moves on to the next timers. -/
theorem Punctual.elapses (h : agenda.Punctual wakes made) (hready : agenda.ready = [])
    (helapse : agenda.elapse? = some agenda') :
    agenda'.Punctual wakes made ∧ agenda.now ≤ agenda'.now ∧ agenda'.calls = agenda.calls ∧
      agenda'.ready ≠ [] := by
  rw [elapse?] at helapse
  split at helapse
  · cases helapse
  next first rest htimers =>
    cases helapse
    have hearly : ∀ timer ∈ agenda.timers, first.deadline ≤ timer.deadline := by
      intro timer htimer
      rw [htimers] at htimer
      rcases List.mem_cons.1 htimer with rfl | hmem
      · exact Nat.le_refl _
      · exact (List.pairwise_cons.1 (htimers ▸ h.sorted)).1 timer hmem
    obtain ⟨due, hdue⟩ : ∃ due, due = agenda.timers.takeWhile fun timer => timer.deadline ≤
      first.deadline := ⟨_, rfl⟩
    rw [← hdue, hready, List.nil_append]
    have hsplit : due ++ agenda.timers.drop due.length = agenda.timers := by
      obtain ⟨rest, hrest⟩ :=
        List.takeWhile_prefix (p := fun timer : Timer => decide (timer.deadline ≤ first.deadline))
        (l := agenda.timers)
      rw [← hdue] at hrest
      rw [← hrest, List.drop_left]
    have hnow : ∀ timer ∈ due, timer.deadline = first.deadline := by
      intro timer htimer
      rw [hdue] at htimer
      have hle := of_decide_eq_true (List.all_eq_true.1 List.all_takeWhile timer htimer)
      rw [← hdue] at htimer
      exact Nat.le_antisymm hle (hearly timer (hsplit ▸ List.mem_append_left _ htimer))
    have hturns : due.map Timer.call ++ (agenda.timers.drop due.length).map Timer.call =
        agenda.turns := by
      rw [← List.map_append, hsplit, turns, hready, List.nil_append]
    refine ⟨⟨fun call member x work hstate => ?_, ?_, fun key hkey => h.made key (hturns ▸ hkey),
      h.keys, ?_, ?_⟩, ?_, rfl, ?_⟩
    · cases h.due call member x work hstate with
      | issued hmem | woken hmem =>
        rw [hready] at hmem
        cases hmem
      | asleep htimer =>
        rw [← hsplit] at htimer
        rcases List.mem_append.1 htimer with hmem | hmem
        · exact .woken (List.mem_map.2 ⟨_, hmem, rfl⟩) (hnow _ hmem)
        · exact .asleep hmem
    · change (due.map Timer.call ++ (agenda.timers.drop due.length).map Timer.call).Nodup
      rw [hturns]
      exact h.once
    · exact h.sorted.sublist (List.drop_sublist ..)
    · exact fun timer htimer => hearly timer (List.mem_of_mem_drop htimer)
    · exact h.ahead first (by rw [htimers]; exact List.mem_cons_self ..)
    · rw [hdue, htimers, List.takeWhile_cons_of_pos (by simp)]
      simp

/-- The sleep that is issued last is to be over that much later. -/
theorem Punctual.issued (h : agenda.Punctual wakes made) {milliseconds : Nat}
    (hkeys : ∀ call ∈ agenda.calls, call.key < made)
    (hwakes : wakes x = agenda.now + milliseconds) :
    (agenda.spawn ⟨made, d, .holding x (.sleep milliseconds)⟩).Punctual wakes (made + 1) := by
  have hturns : (agenda.spawn ⟨made, d, .holding x (.sleep milliseconds)⟩).turns.Perm
      (made :: agenda.turns) := by
    change (agenda.ready ++ [made] ++ agenda.timers.map Timer.call).Perm _
    rw [List.append_assoc]
    exact List.perm_middle
  refine ⟨fun call member y work hstate => ?_,
    hturns.nodup_iff.2 (List.nodup_cons.2 ⟨fun hmem => ?_, h.once⟩),
    fun key hkey => ?_, ?_, h.sorted, h.ahead⟩
  · rcases List.mem_append.1 member with hmem | hmem
    · cases h.due call hmem y work hstate with
      | issued hready heq => exact .issued (List.mem_append_left _ hready) heq
      | asleep htimer => exact .asleep htimer
      | woken hready heq => exact .woken (List.mem_append_left _ hready) heq
    · cases List.mem_singleton.1 hmem
      cases hstate
      exact .issued (List.mem_append_right _ (List.mem_singleton_self _)) hwakes
  · exact Nat.lt_irrefl _ (h.made made hmem)
  · rcases List.mem_cons.1 (hturns.mem_iff.1 hkey) with rfl | hmem
    · exact Nat.lt_succ_self _
    · exact Nat.lt_succ_of_lt (h.made key hmem)
  · change ((agenda.calls ++ [_]).map HostCall.key).Pairwise _
    rw [List.map_append, List.pairwise_append]
    refine ⟨h.keys, List.pairwise_singleton _ _, fun key hkey other hother => ?_⟩
    obtain ⟨call, hcall, rfl⟩ := List.mem_map.1 hkey
    rw [List.mem_singleton.1 hother]
    exact hkeys call hcall

theorem Punctual.removes (h : agenda.Punctual wakes made) (key : Nat) :
    (agenda.remove key).Punctual wakes made where
  due call member x work hstate := by
    cases h.due call (List.mem_filter.1 member).1 x work hstate with
    | issued hready heq => exact .issued hready heq
    | asleep htimer => exact .asleep htimer
    | woken hready heq => exact .woken hready heq
  once := h.once
  made := h.made
  keys := h.keys.sublist (List.filter_sublist.map _)
  sorted := h.sorted
  ahead := h.ahead

/-! ### The host's choice -/

/-- Ready calls may have their turns in whatever order, and of timers with one deadline
whichever may go off first. -/
structure Reorders (agenda agenda' : Agenda) : Prop where
  now : agenda'.now = agenda.now
  calls : agenda'.calls = agenda.calls
  ready : agenda'.ready.Perm agenda.ready
  timers : agenda'.timers.Perm agenda.timers
  sorted : agenda'.timers.Pairwise fun a b => a.deadline ≤ b.deadline

theorem Punctual.reorders (h : agenda.Punctual wakes made) (hreorders : agenda.Reorders agenda') :
    agenda'.Punctual wakes made := by
  have hturns : agenda'.turns.Perm agenda.turns := hreorders.ready.append (hreorders.timers.map _)
  refine ⟨fun call member x work hstate => ?_, hturns.nodup_iff.2 h.once, fun key hkey => h.made key
    (hturns.mem_iff.1 hkey), hreorders.calls ▸ h.keys, hreorders.sorted, fun timer htimer => ?_⟩
  · cases h.due call (hreorders.calls ▸ member) x work hstate with
    | issued hready heq => exact .issued (hreorders.ready.mem_iff.2 hready) (hreorders.now ▸ heq)
    | asleep htimer => exact .asleep (hreorders.timers.mem_iff.2 htimer)
    | woken hready heq =>
      exact .woken (hreorders.ready.mem_iff.2 hready) (heq.trans hreorders.now.symm)
  · exact hreorders.now ▸ h.ahead timer (hreorders.timers.mem_iff.1 htimer)

/-! ### Patience -/

/-- The timer of the sleep is yet to be set. -/
def isUnset (call : HostCall) : Bool :=
  match call.state with
  | .holding _ (.sleep _) => true
  | _ => false

/-- How much the host has to do at most before the loop of the driver hears of a sleep: a
sleep that is issued has a turn in which its timer is set, and another one when it is over. -/
def patience (agenda : Agenda) : Nat :=
  4 * agenda.calls.countP isUnset + 4 * agenda.timers.length + 3 * agenda.ready.length

/-- A turn that does nothing takes patience. -/
theorem patience_later {ready : List Nat} (hready : agenda.ready = key :: ready) :
    (agenda.later ready).patience + 3 = agenda.patience := by
  rw [patience, patience, hready, List.length_cons]
  exact (Nat.add_assoc ..)

/-- The turn in which the timer of a sleep is set takes patience, too. -/
theorem patience_sleep {ready : List Nat} (hready : agenda.ready = key :: ready) {call : HostCall}
    {milliseconds : Nat} (member : call ∈ agenda.calls) (hkey : call.key = key)
    (hstate : call.state = .holding x (.sleep milliseconds)) :
    ((agenda.later ready).sleep key milliseconds).patience + 3 ≤ agenda.patience := by
  have htimers : (insertTimer ⟨agenda.now + milliseconds,
      key⟩ agenda.timers).length = agenda.timers.length + 1 :=
    (insertTimer_perm ..).length_eq
  have hfewer : ((agenda.later ready).setWork key .asleep).calls.countP isUnset <
      agenda.calls.countP isUnset := by
    rw [setWork, List.countP_map]
    refine countP_lt_countP (fun other _ hunset => ?_) member ?_ ?_
    · rw [Function.comp_apply] at hunset
      split at hunset
      next y work hwork =>
        split at hunset
        · cases hunset
        · exact hunset
      next => exact hunset
    · rw [Function.comp_apply, hstate]
      dsimp only
      rw [if_pos hkey]
      exact Bool.false_ne_true
    · rw [isUnset, hstate]
  have hlength := congrArg List.length hready
  rw [List.length_cons] at hlength
  change 4 * ((agenda.later ready).setWork key .asleep).calls.countP isUnset +
    4 * (insertTimer ⟨agenda.now + milliseconds, key⟩ agenda.timers).length + 3 * ready.length + 3 ≤
      4 * agenda.calls.countP isUnset + 4 * agenda.timers.length + 3 * agenda.ready.length
  omega

/-- Each timer that goes off takes patience. -/
theorem patience_elapse (hready : agenda.ready = []) (helapse : agenda.elapse? = some agenda') :
    agenda'.patience < agenda.patience := by
  rw [elapse?] at helapse
  split at helapse
  · cases helapse
  next first rest htimers =>
    cases helapse
    obtain ⟨due, hdue⟩ : ∃ due, due = agenda.timers.takeWhile fun timer => timer.deadline ≤
      first.deadline := ⟨_, rfl⟩
    have hsome : 0 < due.length := by
      rw [hdue, htimers, List.takeWhile_cons_of_pos (by simp)]
      exact Nat.succ_pos _
    have hfew : due.length ≤ agenda.timers.length := hdue ▸ (List.takeWhile_sublist _).length_le
    rw [← hdue, patience, patience, hready, List.nil_append, List.length_map, List.length_drop,
      List.length_nil]
    dsimp only
    omega

/-- Whichever call is next, it takes as much patience. -/
theorem Reorders.patience (h : agenda.Reorders agenda') : agenda'.patience = agenda.patience := by
  rw [Agenda.patience, Agenda.patience, h.calls, h.ready.length_eq, h.timers.length_eq]

end Agenda

end Fibers
