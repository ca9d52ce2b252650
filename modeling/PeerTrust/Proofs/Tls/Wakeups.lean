import PeerTrust.Proofs.Tls.Signal

/-!
# What listeners return

Whatever the order of the steps of all calls, a listener is not left parked while the flag is set,
unless somebody is still to wake it. What a listener returns is what it saw in the flag, or else its
patience has ended and the flag is unset even then.
-/

namespace PeerTrust.Signal

/-- The history lists what was before `last`, move by move. -/
inductive Run : List Traffic → Traffic → Prop
  | start : Run [] .start
  | step {history : List Traffic} {traffic next : Traffic} {move : Move}
      (hrun : Run history traffic) (hnext : traffic.next? move = some next) :
      Run (history ++ [traffic]) next

section
variable (history : List Traffic) (number : Nat)

/-- A call that sets the flag wrote it, and has this to tell about the flag that it replaced. -/
def Wrote (isOn : Bool) (events : List Event) : Prop :=
  ∃ moment ∈ history, moment.calls[number]? = some (.set isOn .begun) ∧
    events = (moment.signal.mode.set isOn).2

/-- A listener began to wait at a time. -/
def Began (patience : Mode.Patience) (time : Nat) : Prop :=
  ∃ moment ∈ history, moment.calls[number]? = some (.wait patience .begun) ∧
    moment.signal.time = time

/-- A listener has the deadline that comes of its patience. -/
def HasDeadline (patience : Mode.Patience) (deadline : Option Nat) : Prop :=
  ∃ time, Began history number patience time ∧ deadline = patience.deadline time

/-- The patience of a listener has ended by a time. -/
def HasExpired (patience : Mode.Patience) (now : Nat) : Prop :=
  ∃ time count, patience = .milliseconds count ∧ Began history number patience time ∧
    time + count ≤ now

/-- What a listener can return, and tell the log. -/
inductive Answer (patience : Mode.Patience) : Bool → List Event → Prop
  /-- It saw the flag while it held the lock. -/
  | seen {moment : Traffic} {stage : Listening} {isOn : Bool} (hmem : moment ∈ history)
      (hcall : moment.calls[number]? = some (.wait patience stage))
      (hholds : (Call.wait patience stage).holds = true)
      (hmode : moment.signal.mode = some isOn) : Answer patience isOn []
  /-- The flag was unset in its last look, after its patience had ended. -/
  | expired {moment : Traffic} {time count : Nat} (hpatience : patience = .milliseconds count)
      (hbegan : Began history number patience time) (hmem : moment ∈ history)
      (hcall : moment.calls[number]? = some (.wait patience .lookingAgain))
      (htime : time + count ≤ moment.signal.time) (hmode : moment.signal.mode = none) :
      Answer patience false [.modeTimeout count]

/-- What must have happened for a call to have come so far by now. -/
def Call.Accounted (now : Nat) : Call → Prop
  | .set isOn (.written events) => Wrote history number isOn events
  | .set isOn (.locked events) => Wrote history number isOn events
  | .set isOn (.notified events) => Wrote history number isOn events
  | .set isOn (.done events) => Wrote history number isOn events
  | .reset (.written events) => events = [.modeReset]
  | .reset (.done events) => events = [.modeReset]
  | .wait patience (.waiting deadline) => HasDeadline history number patience deadline
  | .wait patience (.looking deadline) => HasDeadline history number patience deadline
  | .wait patience (.parking deadline) => HasDeadline history number patience deadline
  | .wait patience (.parked deadline) => HasDeadline history number patience deadline
  | .wait patience .expired => HasExpired history number patience now
  | .wait patience .lookingAgain => HasExpired history number patience now
  | .wait patience (.leaving isOn events) => Answer history number patience isOn events
  | .wait patience (.done isOn events) => Answer history number patience isOn events
  | _ => True

end

section
variable {history later : List Traffic} {number now : Nat} {patience : Mode.Patience}

theorem Began.mono {time : Nat} (hsub : history ⊆ later)
    (hbegan : Began history number patience time) : Began later number patience time := by
  obtain ⟨moment, hmem, hmoment⟩ := hbegan
  exact ⟨moment, hsub hmem, hmoment⟩

theorem Answer.mono {isOn : Bool} {events : List Event} (hsub : history ⊆ later)
    (hanswer : Answer history number patience isOn events) :
    Answer later number patience isOn events := by
  cases hanswer with
  | seen hmem hcall hholds hmode => exact .seen (hsub hmem) hcall hholds hmode
  | expired hpatience hbegan hmem hcall htime hmode =>
    exact .expired hpatience (hbegan.mono hsub) (hsub hmem) hcall htime hmode

/-- What has happened by now has also happened later. -/
theorem Call.Accounted.mono {call : Call} {after : Nat} (hsub : history ⊆ later)
    (hle : now ≤ after) (haccounted : call.Accounted history number now) :
    call.Accounted later number after := by
  have hwrote {isOn : Bool} {events : List Event} :
      Wrote history number isOn events → Wrote later number isOn events :=
    fun ⟨moment, hmem, hmoment⟩ => ⟨moment, hsub hmem, hmoment⟩
  have hdeadline {patience : Mode.Patience} {deadline : Option Nat} :
      HasDeadline history number patience deadline → HasDeadline later number patience deadline :=
    fun ⟨time, hbegan, hsame⟩ => ⟨time, hbegan.mono hsub, hsame⟩
  have hexpired {patience : Mode.Patience} :
      HasExpired history number patience now → HasExpired later number patience after :=
    fun ⟨time, count, hpatience, hbegan, htime⟩ =>
      ⟨time, count, hpatience, hbegan.mono hsub, Nat.le_trans htime hle⟩
  cases call with
  | set isOn stage =>
    cases stage with
    | begun => trivial
    | _ => exact hwrote haccounted
  | reset stage =>
    cases stage with
    | begun => trivial
    | _ => exact haccounted
  | wait patience stage =>
    cases stage with
    | begun => trivial
    | expired => exact hexpired haccounted
    | lookingAgain => exact hexpired haccounted
    | leaving isOn events => exact Answer.mono hsub haccounted
    | done isOn events => exact Answer.mono hsub haccounted
    | _ => exact hdeadline haccounted

/-- A listener that is woken keeps its deadline. -/
theorem Call.Accounted.effectOn {other : Call} (call : Call)
    (haccounted : other.Accounted history number now) :
    (call.effectOn other).Accounted history number now := by
  unfold Call.effectOn
  split
  · unfold woken
    split
    · exact haccounted
    · exact haccounted
  · exact haccounted

/-- **Step lemma.** Each step of a call is accounted for by the moment in which it is made. -/
theorem Call.Step.accounted {traffic : Traffic} {after : Signal} {call next : Call}
    (hcall : traffic.calls[number]? = some call)
    (hstep : call.Step number traffic.signal after next)
    (haccounted : call.Accounted history number traffic.signal.time) :
    next.Accounted (history ++ [traffic]) number traffic.signal.time := by
  have hmem : traffic ∈ history ++ [traffic] := List.mem_concat_self
  have hkept := haccounted.mono (List.subset_append_left history [traffic]) (Nat.le_refl _)
  cases hstep with
  | write => exact ⟨traffic, hmem, hcall, rfl⟩
  | forget => rfl
  | start => exact ⟨_, ⟨traffic, hmem, hcall, rfl⟩, rfl⟩
  | see hmode => exact .seen hmem hcall rfl hmode
  | expire htime =>
    obtain ⟨time, hbegan, hdeadline⟩ := hkept
    obtain ⟨count, hpatience, rfl⟩ := Mode.Patience.deadline_eq_some hdeadline.symm
    exact ⟨time, count, hpatience, hbegan, htime⟩
  | lookAgain hanswer =>
    obtain ⟨time, count, rfl, hbegan, htime⟩ := hkept
    cases hmode : traffic.signal.mode with
    | some isOn =>
      rw [hmode] at hanswer
      cases hanswer
      exact .seen hmem hcall rfl hmode
    | none =>
      rw [hmode] at hanswer
      cases hanswer
      exact .expired rfl hbegan hmem hcall htime hmode
  | _ => exact hkept

namespace Traffic

variable {traffic next : Traffic} {move : Move}

/-- All calls are accounted for by what has happened. -/
def Accounted (history : List Traffic) (traffic : Traffic) : Prop :=
  ∀ (number : Nat) (call : Call), traffic.calls[number]? = some call →
    call.Accounted history number traffic.signal.time

/-- All that is in the log was told by a call that is over. -/
def LogTold (traffic : Traffic) : Prop :=
  ∀ event ∈ traffic.signal.log, ∃ (number : Nat) (call : Call),
    traffic.calls[number]? = some call ∧ event ∈ call.told

/-- **Step lemma.** All calls stay accounted for. -/
theorem accounted_next (haccounted : traffic.Accounted history)
    (hnext : traffic.next? move = some next) : next.Accounted (history ++ [traffic]) := by
  have hsub : history ⊆ history ++ [traffic] := List.subset_append_left ..
  cases move with
  | make request =>
    cases hnext
    intro number call hcall
    rw [List.getElem?_append] at hcall
    split at hcall
    · exact (haccounted number call hcall).mono hsub (Nat.le_refl _)
    · rw [List.mem_singleton.mp (List.mem_of_getElem? hcall)]
      cases request <;> trivial
  | pass milliseconds =>
    cases hnext
    exact fun number call hcall => (haccounted number call hcall).mono hsub (Nat.le_add_right ..)
  | go number =>
    obtain ⟨call, after, hgoes⟩ := exists_goes hnext
    intro other found hfound
    rw [hgoes.step.time_eq]
    by_cases hsame : other = number
    · subst hsame
      cases hgoes.here.symm.trans hfound
      exact hgoes.step.accounted hgoes.before (haccounted other call hgoes.before)
    · rw [hgoes.others other hsame] at hfound
      obtain ⟨before, hbefore, rfl⟩ := Option.map_eq_some_iff.mp hfound
      exact ((haccounted other before hbefore).mono hsub (Nat.le_refl _)).effectOn call

/-- **Step lemma.** All that comes into the log was told by a call that is over. -/
theorem logTold_next (htold : traffic.LogTold) (hnext : traffic.next? move = some next) :
    next.LogTold := by
  cases move with
  | make request =>
    cases hnext
    intro event hmem
    obtain ⟨number, call, hcall, hevent⟩ := htold event hmem
    refine ⟨number, call, ?_, hevent⟩
    exact (List.getElem?_append_left (List.getElem?_eq_some_iff.mp hcall).1).trans hcall
  | pass milliseconds =>
    cases hnext
    exact htold
  | go number =>
    obtain ⟨call, after, hgoes⟩ := exists_goes hnext
    obtain ⟨hnothing, hlog⟩ := hgoes.step.log_eq
    have hold : ∀ event ∈ traffic.signal.log, ∃ (number : Nat) (call : Call),
        next.calls[number]? = some call ∧ event ∈ call.told := by
      intro event hmem
      obtain ⟨other, found, hfound, hevent⟩ := htold event hmem
      have hne : other ≠ number := by
        rintro rfl
        cases hgoes.before.symm.trans hfound
        rw [hnothing] at hevent
        cases hevent
      refine ⟨other, call.effectOn found, ?_, ?_⟩
      · rw [hgoes.others other hne, hfound, Option.map_some]
      · rwa [Call.apply_effectOn Call.told_woken]
    rcases hlog with hkept | hgrown
    · rwa [← hkept] at hold
    · intro event hmem
      rw [hgrown] at hmem
      rcases List.mem_append.mp hmem with hbefore | htells
      · exact hold event hbefore
      · exact ⟨number, after, hgoes.here, htells⟩

end Traffic

end

section
variable {history : List Traffic} {last : Traffic}

/-- **Run lemma.** Whatever happens, one call at most holds the lock, and no listener is forgotten. -/
theorem Run.attended (hrun : Run history last) : last.Exclusive ∧ last.Attended := by
  induction hrun with
  | start => exact ⟨fun number => iff_of_false nofun nofun, fun _ number => nofun⟩
  | step hrun hnext ih =>
    exact ⟨Traffic.exclusive_next ih.1 hnext, Traffic.attended_next ih.1 ih.2 hnext⟩

/-- **Run lemma.** Whatever happens, all calls and all that they tell are accounted for. -/
theorem Run.accounted (hrun : Run history last) : last.Accounted history ∧ last.LogTold := by
  induction hrun with
  | start => exact ⟨fun number call => nofun, List.forall_mem_nil _⟩
  | step hrun hnext ih =>
    exact ⟨Traffic.accounted_next ih.1 hnext, Traffic.logTold_next ih.2 hnext⟩

/-- What happened before was come to by a run of its own. -/
theorem Run.of_mem (hrun : Run history last) {moment : Traffic} (hmem : moment ∈ history) :
    ∃ earlier, Run earlier moment := by
  induction hrun with
  | start => cases hmem
  | step hrun hnext ih =>
    rcases List.mem_append.mp hmem with hearlier | hlast
    · exact ih hearlier
    · rw [List.mem_singleton.mp hlast]
      exact ⟨_, hrun⟩

/-- The warning is about the patience of a listener that gives up, and this is all that it tells. -/
theorem Answer.of_modeTimeout {number count : Nat} {patience : Mode.Patience} {isOn : Bool}
    {events : List Event} (hanswer : Answer history number patience isOn events)
    (htimeout : .modeTimeout count ∈ events) :
    patience = .milliseconds count ∧ isOn = false ∧ events = [.modeTimeout count] := by
  cases hanswer with
  | seen => cases htimeout
  | expired hpatience =>
    cases List.mem_singleton.mp htimeout
    exact ⟨hpatience, rfl, rfl⟩

/-- The warning about an unset flag is told by nobody but a listener that gives up. -/
theorem Call.Accounted.of_modeTimeout {number now count : Nat} {call : Call}
    (haccounted : call.Accounted history number now) (htold : .modeTimeout count ∈ call.told) :
    call = .wait (.milliseconds count) (.done false [.modeTimeout count]) := by
  cases call with
  | set isOn stage =>
    cases stage with
    | done events =>
      obtain ⟨moment, -, -, rfl⟩ := haccounted
      change _ ∈ (Mode.set _ isOn).2 at htold
      rw [Mode.set] at htold
      split at htold <;> cases List.mem_singleton.mp htold
    | _ => cases htold
  | reset stage =>
    cases stage with
    | done events =>
      cases haccounted
      cases List.mem_singleton.mp htold
    | _ => cases htold
  | wait patience stage =>
    cases stage with
    | done isOn events =>
      obtain ⟨rfl, rfl, rfl⟩ := Answer.of_modeTimeout haccounted htold
      rfl
    | _ => cases htold

/-- **No wake-up is lost.** Let any number of calls set the flag, forget it and wait for it, in any
order of their steps. Where a listener is parked although the flag is set, a call has written the
flag and is still to wake the listeners. So once all calls that set the flag are over, no listener
is parked while it is set. A listener that returns that mutual authentication is on saw so at a
moment at which it held the lock. One that warns that the flag is unset returns off; it had waited
as long as it was to wait, and the flag was unset in its last look after that. Nobody else puts the
warning into the log. -/
theorem Run.no_wakeup_lost (hrun : Run history last) :
    (∀ (number : Nat) (patience : Mode.Patience) (deadline : Option Nat),
      last.calls[number]? = some (Call.wait patience (.parked deadline)) →
      last.signal.mode ≠ none →
      ∃ (other : Nat) (isOn : Bool) (events : List Event),
        last.calls[other]? = some (Call.set isOn (.written events)) ∨
        last.calls[other]? = some (Call.set isOn (.locked events))) ∧
    ((∀ (number : Nat) (isOn : Bool) (stage : Setting),
        last.calls[number]? = some (Call.set isOn stage) → ∃ events, stage = .done events) →
      last.signal.mode ≠ none →
      ∀ (number : Nat) (patience : Mode.Patience) (deadline : Option Nat),
        last.calls[number]? ≠ some (Call.wait patience (.parked deadline))) ∧
    (∀ (number : Nat) (patience : Mode.Patience) (events : List Event),
      last.calls[number]? = some (Call.wait patience (.done true events)) →
      ∃ moment ∈ history, ∃ stage, moment.calls[number]? = some (Call.wait patience stage) ∧
        moment.signal.holder = some number ∧ moment.signal.mode = some true) ∧
    (∀ (number : Nat) (patience : Mode.Patience) (isOn : Bool) (events : List Event) (count : Nat),
      last.calls[number]? = some (Call.wait patience (.done isOn events)) →
      Event.modeTimeout count ∈ events → patience = .milliseconds count ∧ isOn = false ∧
      ∃ beginning ∈ history, ∃ moment ∈ history,
        beginning.calls[number]? = some (Call.wait patience .begun) ∧
        moment.calls[number]? = some (Call.wait patience .lookingAgain) ∧
        beginning.signal.time + count ≤ moment.signal.time ∧ moment.signal.mode = none) ∧
    ∀ count, Event.modeTimeout count ∈ last.signal.log → ∃ number : Nat, last.calls[number]? =
      some (Call.wait (.milliseconds count) (.done false [.modeTimeout count])) := by
  obtain ⟨-, hattended⟩ := hrun.attended
  obtain ⟨haccounted, htold⟩ := hrun.accounted
  refine ⟨fun number patience deadline => hattended.exists_setting, ?_, ?_, ?_, ?_⟩
  · intro hdone hset number patience deadline hcall
    obtain ⟨other, isOn, events, hwritten | hlocked⟩ := hattended.exists_setting hcall hset
    · obtain ⟨told, htold⟩ := hdone other isOn _ hwritten
      cases htold
    · obtain ⟨told, htold⟩ := hdone other isOn _ hlocked
      cases htold
  · intro number patience events hcall
    have hanswer : Answer history number patience true events := haccounted number _ hcall
    cases hanswer with
    | @seen moment stage _ hmem hstage hholds hmode =>
      obtain ⟨earlier, hearlier⟩ := hrun.of_mem hmem
      have hholder := (hearlier.attended.1 number).mp
        ((Traffic.has_of_getElem? hstage).trans hholds)
      exact ⟨moment, hmem, stage, hstage, hholder, hmode⟩
  · intro number patience isOn events count hcall htimeout
    have hanswer : Answer history number patience isOn events := haccounted number _ hcall
    cases hanswer with
    | seen => cases htimeout
    | @expired moment time _ hpatience hbegan hmem hlooking htime hmode =>
      cases List.mem_singleton.mp htimeout
      obtain ⟨beginning, hbeginning, hbegun, rfl⟩ := hbegan
      exact ⟨hpatience, rfl, beginning, hbeginning, moment, hmem, hbegun, hlooking, htime, hmode⟩
  · intro count hmem
    obtain ⟨number, call, hcall, htimeout⟩ := htold _ hmem
    exact ⟨number, (haccounted number call hcall).of_modeTimeout htimeout ▸ hcall⟩

/-- Some moves lead from one traffic to another. -/
def Leads (traffic last : Traffic) : Prop :=
  ∃ moves : List Move, moves.foldlM Traffic.next? traffic = some last

theorem Leads.trans {traffic middle : Traffic} (hfirst : Leads traffic middle)
    (hsecond : Leads middle last) : Leads traffic last := by
  obtain ⟨moves, hmoves⟩ := hfirst
  obtain ⟨others, hothers⟩ := hsecond
  exact ⟨moves ++ others, by rw [List.foldlM_append, hmoves]; exact hothers⟩

/-- Moves lead on from where a run has come to. -/
theorem Run.exists_of_leads {traffic : Traffic} (hrun : Run history traffic)
    (hleads : Leads traffic last) : ∃ later, Run (history ++ later) last := by
  obtain ⟨moves, hmoves⟩ := hleads
  induction moves generalizing history traffic with
  | nil =>
    cases hmoves
    exact ⟨[], by rwa [List.append_nil]⟩
  | cons move rest ih =>
    rw [List.foldlM_cons] at hmoves
    obtain ⟨next, hnext, hrest⟩ := Option.bind_eq_some_iff.mp hmoves
    obtain ⟨later, hlater⟩ := ih (hrun.step hnext) hrest
    exact ⟨traffic :: later, by rwa [List.append_assoc, List.singleton_append] at hlater⟩

/-- A listener gives up, another one parks just after the flag is set, and a third one comes. -/
def lateSetting : List Move :=
  [.make (.wait (.milliseconds 50)), .go 0, .go 0, .go 0, .go 0, .pass 50, .go 0, .go 0, .go 0,
    .go 0, .make (.wait .unlimited), .go 1, .go 1, .go 1, .make (.set true), .go 2, .go 1,
    .make (.wait .unlimited), .go 3, .go 3, .go 3, .go 3]

/-- The second listener is parked then, but the call that set the flag is still to wake it. The
third one has seen that the flag is on, and the first one that it was unset after its patience. -/
theorem lateSetting_wakes : ∃ history last, Run history last ∧
    lateSetting.foldlM Traffic.next? .start = some last ∧
    last.calls = [.wait (.milliseconds 50) (.done false [.modeTimeout 50]),
      .wait .unlimited (.parked none), .set true (.written [.modeSet true none]),
      .wait .unlimited (.done true [])] ∧
    (∃ (other : Nat) (isOn : Bool) (events : List Event),
      last.calls[other]? = some (Call.set isOn (.written events)) ∨
        last.calls[other]? = some (Call.set isOn (.locked events))) ∧
    (∃ moment ∈ history, moment.signal.holder = some 3 ∧ moment.signal.mode = some true) ∧
    ∃ moment ∈ history, 50 ≤ moment.signal.time ∧ moment.signal.mode = none := by
  have hmoves : lateSetting.foldlM Traffic.next? .start = some _ := rfl
  obtain ⟨history, hrun⟩ := Run.start.exists_of_leads ⟨_, hmoves⟩
  obtain ⟨hawaited, -, htrue, hexpired, -⟩ := hrun.no_wakeup_lost
  obtain ⟨moment, hmem, -, -, hholder, hmode⟩ := htrue 3 .unlimited [] rfl
  obtain ⟨-, -, beginning, -, looking, hlooking, -, -, htime, hunset⟩ :=
    hexpired 0 (.milliseconds 50) false [.modeTimeout 50] 50 rfl (List.mem_singleton_self _)
  exact ⟨_, _, hrun, hmoves, rfl, hawaited 1 .unlimited none rfl nofun,
    ⟨moment, hmem, hholder, hmode⟩, looking, hlooking, by omega, hunset⟩

end

end PeerTrust.Signal
