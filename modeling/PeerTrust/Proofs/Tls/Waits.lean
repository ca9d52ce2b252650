import PeerTrust.Proofs.Tls.Wakeups

/-!
# Waiting at once and step by step

What a listener comes to can also be said at once, from the flag at first and from the time at which
it is set. The steps of listeners come to just these results: each result of theirs is one for the
flag in their last look, and each result that can be said at once is the one of some run.
-/

namespace PeerTrust.Signal

section
variable {history : List Traffic}

/-- What a listener returns is what a wait at once comes to, at the moment of its last look. -/
theorem Answer.exists_wait {number : Nat} {patience : Mode.Patience} {isOn : Bool}
    {events : List Event} (hanswer : Answer history number patience isOn events) :
    ∃ moment ∈ history, moment.signal.mode.wait patience none = some (isOn, events) := by
  cases hanswer with
  | @seen moment _ _ hmem _ _ hmode =>
    refine ⟨moment, hmem, ?_⟩
    rw [hmode]
    rfl
  | @expired moment _ _ hpatience _ hmem _ _ hmode =>
    refine ⟨moment, hmem, ?_⟩
    rw [hmode, hpatience]
    rfl

/-- A listener that finds the flag as given at first can come to a result. -/
def Comes (mode : Mode) (patience : Mode.Patience) (isOn : Bool) (events : List Event) : Prop :=
  ∃ (first last : Traffic) (number : Nat), Leads .start first ∧ Leads first last ∧
    first.signal.mode = mode ∧ first.calls[number]? = some (Call.wait patience .begun) ∧
    last.calls[number]? = some (Call.wait patience (.done isOn events))

/-- A listener that comes after the flag was set returns it. -/
theorem comes_of_set (isOn : Bool) (patience : Mode.Patience) :
    Comes (some isOn) patience isOn [] := by
  have hset : Leads .start ⟨⟨some isOn, none, 0, [.modeSet isOn none]⟩,
      [.set isOn (.done [.modeSet isOn none]), .wait patience .begun]⟩ :=
    ⟨[.make (.set isOn), .go 0, .go 0, .go 0, .go 0, .make (.wait patience)], rfl⟩
  have hleave : Leads ⟨⟨some isOn, none, 0, [.modeSet isOn none]⟩,
        [.set isOn (.done [.modeSet isOn none]), .wait patience .begun]⟩
      ⟨⟨some isOn, none, 0, [.modeSet isOn none]⟩,
        [.set isOn (.done [.modeSet isOn none]), .wait patience (.done isOn [])]⟩ :=
    ⟨[.go 1, .go 1, .go 1, .go 1], rfl⟩
  exact ⟨_, _, 1, hset, hleave, rfl, rfl, rfl⟩

/-- A listener that comes while the flag is unset can park. -/
theorem leads_parked (patience : Mode.Patience) :
    Leads ⟨⟨none, none, 0, []⟩, [.wait patience .begun]⟩
      ⟨⟨none, none, 0, []⟩, [.wait patience (.parked (patience.deadline 0))]⟩ :=
  ⟨[.go 0, .go 0, .go 0, .go 0], rfl⟩

/-- A listener that is parked when the flag is set returns it. -/
theorem comes_of_arrival (isOn : Bool) (patience : Mode.Patience) :
    Comes none patience isOn [] := by
  have hset : Leads ⟨⟨none, none, 0, []⟩, [.wait patience (.parked (patience.deadline 0))]⟩
      ⟨⟨some isOn, none, 0, [.modeSet isOn none]⟩, [.wait patience
        (.waiting (patience.deadline 0)), .set isOn (.done [.modeSet isOn none])]⟩ :=
    ⟨[.make (.set isOn), .go 1, .go 1, .go 1, .go 1], rfl⟩
  have hleave : Leads ⟨⟨some isOn, none, 0, [.modeSet isOn none]⟩, [.wait patience
        (.waiting (patience.deadline 0)), .set isOn (.done [.modeSet isOn none])]⟩
      ⟨⟨some isOn, none, 0, [.modeSet isOn none]⟩,
        [.wait patience (.done isOn []), .set isOn (.done [.modeSet isOn none])]⟩ :=
    ⟨[.go 0, .go 0, .go 0], rfl⟩
  exact ⟨_, _, 0, ⟨[.make (.wait patience)], rfl⟩,
    (leads_parked patience).trans (hset.trans hleave), rfl, rfl, rfl⟩

/-- A listener that nobody sets the flag for gives up when its patience has ended. -/
theorem comes_of_expiry (count : Nat) :
    Comes none (.milliseconds count) false [.modeTimeout count] := by
  have hexpire : Leads
      ⟨⟨none, none, 0, []⟩, [.wait (.milliseconds count) (.parked (some (0 + count)))]⟩
      ⟨⟨none, none, 0 + count, []⟩, [.wait (.milliseconds count) .expired]⟩ :=
    ⟨[.pass count, .go 0], by simp [Traffic.next?, Call.next?, Listening.next?]⟩
  have hleave : Leads ⟨⟨none, none, 0 + count, []⟩, [.wait (.milliseconds count) .expired]⟩
      ⟨⟨none, none, 0 + count, [.modeTimeout count]⟩,
        [.wait (.milliseconds count) (.done false [.modeTimeout count])]⟩ :=
    ⟨[.go 0, .go 0, .go 0], rfl⟩
  exact ⟨_, _, 0, ⟨[.make (.wait (.milliseconds count))], rfl⟩,
    (leads_parked (.milliseconds count)).trans (hexpire.trans hleave), rfl, rfl, rfl⟩

/-- **At once and step by step.** Whatever a wait at once comes to, the steps of a listener that
finds the same flag at first can come to as well. -/
theorem comes_of_wait {mode : Mode} {patience : Mode.Patience} {arrival : Option Mode.Arrival}
    {isOn : Bool} {events : List Event}
    (hwait : mode.wait patience arrival = some (isOn, events)) :
    Comes mode patience isOn events := by
  have hexpire (hexpire : Mode.wait.expire patience = some (isOn, events)) :
      Comes none patience isOn events := by
    cases patience with
    | milliseconds count =>
      cases hexpire
      exact comes_of_expiry count
    | unlimited => cases hexpire
  unfold Mode.wait at hwait
  split at hwait
  · cases hwait
    exact comes_of_set ..
  · split at hwait
    · cases hwait
      exact comes_of_arrival ..
    · exact hexpire hwait
  · exact hexpire hwait

/-- **Results of listeners.** A listener of some patience can return and tell just what it can come
to at once. -/
theorem exists_run_iff_wait {patience : Mode.Patience} {isOn : Bool} {events : List Event} :
    (∃ (history : List Traffic) (last : Traffic) (number : Nat), Run history last ∧
      last.calls[number]? = some (Call.wait patience (.done isOn events))) ↔
    ∃ (mode : Mode) (arrival : Option Mode.Arrival),
      mode.wait patience arrival = some (isOn, events) := by
  constructor
  · rintro ⟨history, last, number, hrun, hdone⟩
    have hanswer : Answer history number patience isOn events := hrun.accounted.1 number _ hdone
    obtain ⟨moment, -, hwait⟩ := hanswer.exists_wait
    exact ⟨moment.signal.mode, none, hwait⟩
  · rintro ⟨mode, arrival, hwait⟩
    obtain ⟨first, last, number, hfirst, hlast, -, -, hdone⟩ := comes_of_wait hwait
    obtain ⟨history, hrun⟩ := Run.start.exists_of_leads (hfirst.trans hlast)
    exact ⟨_, last, number, hrun, hdone⟩

end

end PeerTrust.Signal
