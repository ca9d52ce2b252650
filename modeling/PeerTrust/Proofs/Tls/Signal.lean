import PeerTrust.Tls.Signal

/-!
# Steps of calls on a signal

At most one call holds the lock, and a listener holds it from its look at the flag until it has
parked. So a listener that has seen an unset flag is among those that are woken by the next call
that sets the flag: that call writes the flag after the look, and can wake nobody before the
listener has parked.
-/

namespace PeerTrust

theorem Mode.Patience.deadline_eq_some {patience : Mode.Patience} {time deadline : Nat}
    (hdeadline : patience.deadline time = some deadline) :
    ∃ count, patience = .milliseconds count ∧ deadline = time + count := by
  cases patience with
  | milliseconds count => exact ⟨count, rfl, (Option.some.inj hdeadline).symm⟩
  | unlimited => cases hdeadline

namespace Signal

/-- What the next step of a call can be. -/
inductive Call.Step (number : Nat) (signal : Signal) : Call → Signal → Call → Prop
  | write (isOn : Bool) : Step number signal (.set isOn .begun)
      (signal.write (signal.mode.set isOn).1) (.set isOn (.written (signal.mode.set isOn).2))
  | lock {isOn : Bool} {events : List Event} (hfree : signal.holder = none) :
      Step number signal (.set isOn (.written events))
        { signal with holder := some number } (.set isOn (.locked events))
  | notify (isOn : Bool) (events : List Event) :
      Step number signal (.set isOn (.locked events)) signal (.set isOn (.notified events))
  | finish (isOn : Bool) (events : List Event) :
      Step number signal (.set isOn (.notified events))
        (signal.tell events).unlock (.set isOn (.done events))
  | forget : Step number signal (.reset .begun)
      (signal.write none) (.reset (.written [.modeReset]))
  | forgotten (events : List Event) :
      Step number signal (.reset (.written events)) (signal.tell events) (.reset (.done events))
  | start (patience : Mode.Patience) : Step number signal (.wait patience .begun)
      signal (.wait patience (.waiting (patience.deadline signal.time)))
  | enter {patience : Mode.Patience} {deadline : Option Nat} (hfree : signal.holder = none) :
      Step number signal (.wait patience (.waiting deadline))
        { signal with holder := some number } (.wait patience (.looking deadline))
  | see {patience : Mode.Patience} {deadline : Option Nat} {isOn : Bool}
      (hmode : signal.mode = some isOn) : Step number signal (.wait patience (.looking deadline))
        signal (.wait patience (.leaving isOn []))
  | seeUnset {patience : Mode.Patience} {deadline : Option Nat} (hmode : signal.mode = none) :
      Step number signal (.wait patience (.looking deadline))
        signal (.wait patience (.parking deadline))
  | park (patience : Mode.Patience) (deadline : Option Nat) :
      Step number signal (.wait patience (.parking deadline))
        signal.unlock (.wait patience (.parked deadline))
  | expire {patience : Mode.Patience} {deadline : Nat} (htime : deadline ≤ signal.time) :
      Step number signal (.wait patience (.parked (some deadline)))
        signal (.wait patience .expired)
  | reenter {patience : Mode.Patience} (hfree : signal.holder = none) :
      Step number signal (.wait patience .expired)
        { signal with holder := some number } (.wait patience .lookingAgain)
  | lookAgain {patience : Mode.Patience} {isOn : Bool} {events : List Event}
      (hanswer : signal.mode.wait patience none = some (isOn, events)) :
      Step number signal (.wait patience .lookingAgain)
        signal (.wait patience (.leaving isOn events))
  | leave (patience : Mode.Patience) (isOn : Bool) (events : List Event) :
      Step number signal (.wait patience (.leaving isOn events))
        (signal.tell events).unlock (.wait patience (.done isOn events))

section
variable {number : Nat} {signal after : Signal} {call next : Call}

theorem lock?_eq_some : signal.lock? number = some after ↔
    signal.holder = none ∧ after = { signal with holder := some number } := by
  unfold lock?
  split
  · rename_i hfree
    simp [hfree, eq_comm]
  · rename_i hheld
    simp [hheld]

/-- **Inversion.** Each step of a call is one of those. -/
theorem Call.step_of_next? (hnext : call.next? number signal = some (after, next)) :
    Step number signal call after next := by
  cases call with
  | set isOn stage =>
    obtain ⟨⟨_, _⟩, hstage, hsame⟩ := Option.map_eq_some_iff.mp hnext
    cases hsame
    cases stage with
    | begun =>
      cases hstage
      exact .write isOn
    | written events =>
      obtain ⟨_, hlock, hsame⟩ := Option.map_eq_some_iff.mp hstage
      obtain ⟨hfree, rfl⟩ := lock?_eq_some.mp hlock
      cases hsame
      exact .lock hfree
    | locked events =>
      cases hstage
      exact .notify isOn events
    | notified events =>
      cases hstage
      exact .finish isOn events
    | done events => cases hstage
  | reset stage =>
    obtain ⟨⟨_, _⟩, hstage, hsame⟩ := Option.map_eq_some_iff.mp hnext
    cases hsame
    cases stage with
    | begun =>
      cases hstage
      exact .forget
    | written events =>
      cases hstage
      exact .forgotten events
    | done events => cases hstage
  | wait patience stage =>
    obtain ⟨⟨_, _⟩, hstage, hsame⟩ := Option.map_eq_some_iff.mp hnext
    cases hsame
    cases stage with
    | begun =>
      cases hstage
      exact .start patience
    | waiting deadline =>
      obtain ⟨_, hlock, hsame⟩ := Option.map_eq_some_iff.mp hstage
      obtain ⟨hfree, rfl⟩ := lock?_eq_some.mp hlock
      cases hsame
      exact .enter hfree
    | looking deadline =>
      cases hmode : signal.mode with
      | some isOn =>
        rw [Listening.next?, hmode] at hstage
        cases hstage
        exact .see hmode
      | none =>
        rw [Listening.next?, hmode] at hstage
        cases hstage
        exact .seeUnset hmode
    | parking deadline =>
      cases hstage
      exact .park patience deadline
    | parked deadline =>
      obtain ⟨hexpired, hsame⟩ := Option.ite_none_right_eq_some.mp hstage
      cases hsame
      cases deadline with
      | none => cases hexpired
      | some time => exact .expire (of_decide_eq_true hexpired)
    | expired =>
      obtain ⟨_, hlock, hsame⟩ := Option.map_eq_some_iff.mp hstage
      obtain ⟨hfree, rfl⟩ := lock?_eq_some.mp hlock
      cases hsame
      exact .reenter hfree
    | lookingAgain =>
      obtain ⟨⟨_, _⟩, hanswer, hsame⟩ := Option.map_eq_some_iff.mp hstage
      cases hsame
      exact .lookAgain hanswer
    | leaving isOn events =>
      cases hstage
      exact .leave patience isOn events
    | done isOn events => cases hstage

end

namespace Call

/-- Whether a call holds the lock. -/
def holds : Call → Bool
  | .set _ (.locked _) => true
  | .set _ (.notified _) => true
  | .wait _ (.looking _) => true
  | .wait _ (.parking _) => true
  | .wait _ .lookingAgain => true
  | .wait _ (.leaving _ _) => true
  | _ => false

/-- Whether a call has written the flag, and has not woken the listeners since. -/
def isPending : Call → Bool
  | .set _ (.written _) => true
  | .set _ (.locked _) => true
  | _ => false

/-- Whether a listener has seen an unset flag, and was not woken since. -/
def hasSeenUnset : Call → Bool
  | .wait _ (.parking _) => true
  | .wait _ (.parked _) => true
  | _ => false

/-- What a call that is over has told the log. -/
def told : Call → List Event
  | .set _ (.done events) => events
  | .reset (.done events) => events
  | .wait _ (.done _ events) => events
  | _ => []

section
variable {number : Nat} {signal after : Signal} {call next : Call}

theorem holds_woken (call : Call) : call.woken.holds = call.holds := by
  unfold woken
  split <;> rfl

theorem isPending_woken (call : Call) : call.woken.isPending = call.isPending := by
  unfold woken
  split <;> rfl

theorem told_woken (call : Call) : call.woken.told = call.told := by
  unfold woken
  split <;> rfl

theorem exists_of_isPending (hpending : call.isPending = true) :
    ∃ isOn events, call = .set isOn (.written events) ∨ call = .set isOn (.locked events) := by
  unfold isPending at hpending
  split at hpending
  · exact ⟨_, _, Or.inl rfl⟩
  · exact ⟨_, _, Or.inr rfl⟩
  · cases hpending

/-- What waking leaves as it is stays as it is by every step of another call. -/
theorem apply_effectOn {α : Type} {property : Call → α}
    (hwoken : ∀ call : Call, property call.woken = property call) (call other : Call) :
    property (call.effectOn other) = property other := by
  unfold effectOn
  split
  · exact hwoken other
  · rfl

/-- A listener that is to park although all were woken has not parked yet, so it holds the lock. -/
theorem holds_of_hasSeenUnset_woken (hseen : call.woken.hasSeenUnset = true) :
    call.holds = true := by
  cases call with
  | wait patience stage =>
    cases stage with
    | parking deadline => rfl
    | _ => cases hseen
  | _ => cases hseen

/-- How a step can change who holds the lock, and whether it is the call that makes the step. -/
inductive LockStep (number : Nat) : Option Nat → Bool → Option Nat → Bool → Prop
  | kept (holder : Option Nat) (holds : Bool) : LockStep number holder holds holder holds
  | taken : LockStep number none false (some number) true
  | returned (holder : Option Nat) : LockStep number holder true none false

/-- A call that stands where the lock is held exactly if it holds the lock does so after a step as
well. Whether another call holds the lock stays the same. -/
theorem LockStep.holder_iff {number : Nat} {holder holder' : Option Nat} {held held' : Bool}
    (hlock : LockStep number holder held holder' held')
    (hheld : held = true ↔ holder = some number) : (held' = true ↔ holder' = some number) ∧
    ∀ other, other ≠ number → (holder = some other ↔ holder' = some other) := by
  cases hlock with
  | kept => exact ⟨hheld, fun _ _ => Iff.rfl⟩
  | taken =>
    refine ⟨iff_of_true rfl rfl, fun other hne => iff_of_false nofun fun hsame => ?_⟩
    exact hne (Option.some.inj hsame).symm
  | returned =>
    refine ⟨iff_of_false nofun nofun, fun other hne => iff_of_false (fun hother => ?_) nofun⟩
    exact hne (Option.some.inj (hother.symm.trans (hheld.mp rfl)))

theorem Step.lockStep (hstep : Step number signal call after next) :
    LockStep number signal.holder call.holds after.holder next.holds := by
  cases hstep with
  | lock hfree | enter hfree | reenter hfree =>
    rw [hfree]
    exact .taken
  | finish | park | leave => exact .returned _
  | _ => exact .kept _ _

/-- A step changes the flag only if it writes or forgets it. -/
theorem Step.mode_eq (hstep : Step number signal call after next) :
    after.mode = signal.mode ∨ after.mode = none ∨ next.isPending = true := by
  cases hstep with
  | write => exact Or.inr (Or.inr rfl)
  | forget => exact Or.inr (Or.inl rfl)
  | _ => exact Or.inl rfl

theorem Step.time_eq (hstep : Step number signal call after next) : after.time = signal.time := by
  cases hstep <;> rfl

/-- A step tells the log something only if the call is over after it. -/
theorem Step.log_eq (hstep : Step number signal call after next) :
    call.told = [] ∧ (after.log = signal.log ∨ after.log = signal.log ++ next.told) := by
  cases hstep with
  | finish | forgotten | leave => exact ⟨rfl, Or.inr rfl⟩
  | _ => exact ⟨rfl, Or.inl rfl⟩

/-- A call that has written the flag has to wake the listeners until it does. -/
theorem Step.isPending_or_isWaking (hstep : Step number signal call after next)
    (hpending : call.isPending = true) : next.isPending = true ∨ call.isWaking = true := by
  cases hstep with
  | lock => exact Or.inl rfl
  | notify => exact Or.inr rfl
  | _ => cases hpending

/-- A call that wakes the listeners holds the lock, and does nothing else. -/
theorem Step.of_isWaking (hstep : Step number signal call after next)
    (hwaking : call.isWaking = true) : call.holds = true ∧ next.hasSeenUnset = false := by
  cases hstep with
  | notify => exact ⟨rfl, rfl⟩
  | _ => cases hwaking

/-- Only a listener that finds the flag unset is to park. -/
theorem Step.hasSeenUnset (hstep : Step number signal call after next)
    (hseen : next.hasSeenUnset = true) : call.hasSeenUnset = true ∨ after.mode = none := by
  cases hstep with
  | seeUnset hmode => exact Or.inr hmode
  | park => exact Or.inl rfl
  | _ => cases hseen

end

end Call

namespace Traffic

/-- What it is for the call of a number to go on: it makes one of its steps, and the other calls
stay as they are unless they are woken. -/
structure Goes (traffic : Traffic) (number : Nat) (next : Traffic) (call after : Call) :
    Prop where
  before : traffic.calls[number]? = some call
  step : call.Step number traffic.signal next.signal after
  here : next.calls[number]? = some after
  others : ∀ other, other ≠ number →
    next.calls[other]? = traffic.calls[other]?.map call.effectOn

/-- Whether the call of a number is there and has a property. -/
def has (property : Call → Bool) (traffic : Traffic) (number : Nat) : Bool :=
  traffic.calls[number]?.any property

section
variable {traffic next : Traffic} {number other : Nat} {call after : Call} {property : Call → Bool}

theorem has_of_getElem? (hcall : traffic.calls[number]? = some call) :
    traffic.has property number = property call := by
  rw [has, hcall, Option.any_some]

theorem exists_of_has (hhas : traffic.has property number = true) :
    ∃ call, traffic.calls[number]? = some call ∧ property call = true := by
  unfold has at hhas
  cases hcall : traffic.calls[number]? with
  | none =>
    rw [hcall] at hhas
    cases hhas
  | some call => exact ⟨call, rfl, by rwa [hcall] at hhas⟩

/-- **Inversion.** A call that goes on makes one of its steps, and wakes the listeners if it is to
do so. -/
theorem exists_goes (hgo : traffic.next? (.go number) = some next) :
    ∃ call after, traffic.Goes number next call after := by
  obtain ⟨call, hcall, hgo⟩ := Option.bind_eq_some_iff.mp hgo
  obtain ⟨⟨signal, after⟩, hstep, hgo⟩ := Option.bind_eq_some_iff.mp hgo
  cases hgo
  refine ⟨call, after, hcall, Call.step_of_next? hstep, ?_, fun other hne => ?_⟩
  · have hlt := (List.getElem?_eq_some_iff.mp hcall).1
    exact List.getElem?_set_self ((List.length_map _).symm ▸ hlt)
  · exact (List.getElem?_set_ne hne.symm).trans List.getElem?_map

/-- What waking leaves as it is stays as it is in the other calls. -/
theorem Goes.has_other (hgoes : traffic.Goes number next call after)
    (hwoken : ∀ call : Call, property call.woken = property call) (hne : other ≠ number) :
    next.has property other = traffic.has property other := by
  have heffect (found : Call) := Call.apply_effectOn hwoken call found
  rw [has, has, hgoes.others other hne, Option.any_map]
  exact congrArg (Option.any · _) (funext heffect)

/-- A new call does not have a property that no call has at first. -/
theorem has_make {request : Request} (hbegun : ∀ request : Request, property request.begun = false)
    (hmake : traffic.next? (.make request) = some next) (number : Nat) :
    next.has property number = traffic.has property number := by
  cases hmake
  rw [has, has, List.getElem?_append]
  split
  · rfl
  · rename_i hge
    rw [List.getElem?_eq_none (Nat.le_of_not_lt hge), List.getElem?_singleton]
    split
    · exact hbegun request
    · rfl

/-- The lock is held by the call that stands where the lock is held, and by nobody else. -/
def Exclusive (traffic : Traffic) : Prop :=
  ∀ number, traffic.has Call.holds number = true ↔ traffic.signal.holder = some number

/-- Where a listener is parked although the flag is set, a call is still to wake it. -/
def Attended (traffic : Traffic) : Prop :=
  traffic.signal.mode ≠ none → ∀ number, traffic.has Call.hasSeenUnset number = true →
    ∃ other, traffic.has Call.isPending other = true

/-- **Step lemma.** There is never more than one call that holds the lock. -/
theorem exclusive_next {move : Move} (hexclusive : traffic.Exclusive)
    (hnext : traffic.next? move = some next) : next.Exclusive := by
  cases move with
  | make request =>
    intro number
    rw [has_make (by rintro (_ | _ | _) <;> rfl) hnext, hexclusive number]
    cases hnext
    rfl
  | pass milliseconds =>
    cases hnext
    exact hexclusive
  | go number =>
    obtain ⟨call, after, hgoes⟩ := exists_goes hnext
    have hheld := hexclusive number
    rw [has_of_getElem? hgoes.before] at hheld
    obtain ⟨hself, hothers⟩ := hgoes.step.lockStep.holder_iff hheld
    intro other
    by_cases hsame : other = number
    · rw [hsame, has_of_getElem? hgoes.here]
      exact hself
    · rw [hgoes.has_other Call.holds_woken hsame, hexclusive other]
      exact hothers other hsame

/-- When the listeners are woken, the lock is held by the call that wakes them. So none of them is
between its look at the flag and its place among those that are woken. -/
theorem Goes.none_hasSeenUnset (hexclusive : traffic.Exclusive)
    (hgoes : traffic.Goes number next call after) (hwaking : call.isWaking = true)
    (listener : Nat) : next.has Call.hasSeenUnset listener = false := by
  obtain ⟨hholds, hafter⟩ := hgoes.step.of_isWaking hwaking
  by_cases hsame : listener = number
  · rw [hsame, has_of_getElem? hgoes.here]
    exact hafter
  · refine Bool.eq_false_iff.mpr fun hseen => hsame ?_
    obtain ⟨sleeper, hsleeper, hseen⟩ := exists_of_has hseen
    rw [hgoes.others listener hsame] at hsleeper
    obtain ⟨before, hbefore, rfl⟩ := Option.map_eq_some_iff.mp hsleeper
    rw [Call.effectOn, if_pos hwaking] at hseen
    have hlistener := (hexclusive listener).mp
      ((has_of_getElem? hbefore).trans (Call.holds_of_hasSeenUnset_woken hseen))
    have hnumber := (hexclusive number).mp ((has_of_getElem? hgoes.before).trans hholds)
    exact Option.some.inj (hlistener.symm.trans hnumber)

/-- Unless a step wakes the listeners, who is to wake them after the flag was written still is. -/
theorem Goes.isPending (hgoes : traffic.Goes number next call after)
    (hwaking : call.isWaking = false) (hpending : traffic.has Call.isPending other = true) :
    next.has Call.isPending other = true := by
  by_cases hsame : other = number
  · subst hsame
    rw [has_of_getElem? hgoes.before] at hpending
    rw [has_of_getElem? hgoes.here]
    refine (hgoes.step.isPending_or_isWaking hpending).resolve_right ?_
    rw [hwaking]
    exact Bool.false_ne_true
  · rwa [hgoes.has_other Call.isPending_woken hsame]

/-- No listener comes to park while the flag is set. -/
theorem Goes.hasSeenUnset (hgoes : traffic.Goes number next call after)
    (hwaking : call.isWaking = false) (hmode : next.signal.mode ≠ none)
    (hseen : next.has Call.hasSeenUnset other = true) :
    traffic.has Call.hasSeenUnset other = true := by
  by_cases hsame : other = number
  · subst hsame
    rw [has_of_getElem? hgoes.here] at hseen
    rw [has_of_getElem? hgoes.before]
    exact (hgoes.step.hasSeenUnset hseen).resolve_right hmode
  · have heffect : call.effectOn = id := by
      funext found
      rw [Call.effectOn, hwaking]
      rfl
    rwa [has, hgoes.others other hsame, heffect, Option.map_id] at hseen

/-- **Step lemma.** Where a listener is parked although the flag is set, somebody is still to wake
it. -/
theorem attended_next {move : Move} (hexclusive : traffic.Exclusive) (hattended : traffic.Attended)
    (hnext : traffic.next? move = some next) : next.Attended := by
  cases move with
  | make request =>
    intro hset number hseen
    rw [has_make (by rintro (_ | _ | _) <;> rfl) hnext] at hseen
    obtain ⟨other, hpending⟩ := hattended (by cases hnext; exact hset) number hseen
    exact ⟨other, by rwa [has_make (by rintro (_ | _ | _) <;> rfl) hnext]⟩
  | pass milliseconds =>
    cases hnext
    exact hattended
  | go number =>
    obtain ⟨call, after, hgoes⟩ := exists_goes hnext
    intro hset listener hseen
    rcases hgoes.step.mode_eq with hkept | hunset | hpending
    -- The flag was set before as well: the step may be the one that wakes all listeners.
    · cases hwaking : call.isWaking with
      | true =>
        rw [hgoes.none_hasSeenUnset hexclusive hwaking listener] at hseen
        cases hseen
      | false =>
        have hbefore := hgoes.hasSeenUnset hwaking hset hseen
        obtain ⟨other, hpending⟩ := hattended (hkept ▸ hset) listener hbefore
        exact ⟨other, hgoes.isPending hwaking hpending⟩
    · exact (hset hunset).elim
    -- The call has just written the flag, so it is the one that is still to wake the listeners.
    · exact ⟨number, (has_of_getElem? hgoes.here).trans hpending⟩

/-- Where a listener is parked although the flag is set, a call has written the flag and is still to
wake the listeners. -/
theorem Attended.exists_setting (hattended : traffic.Attended) {patience : Mode.Patience}
    {deadline : Option Nat}
    (hcall : traffic.calls[number]? = some (.wait patience (.parked deadline)))
    (hset : traffic.signal.mode ≠ none) : ∃ (other : Nat) (isOn : Bool) (events : List Event),
      traffic.calls[other]? = some (.set isOn (.written events)) ∨
        traffic.calls[other]? = some (.set isOn (.locked events)) := by
  obtain ⟨other, hpending⟩ := hattended hset number (has_of_getElem? hcall)
  obtain ⟨call, hother, hpending⟩ := exists_of_has hpending
  obtain ⟨isOn, events, rfl | rfl⟩ := Call.exists_of_isPending hpending
  · exact ⟨other, isOn, events, Or.inl hother⟩
  · exact ⟨other, isOn, events, Or.inr hother⟩

end

end Traffic

end Signal

end PeerTrust
