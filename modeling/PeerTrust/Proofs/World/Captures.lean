import PeerTrust.Proofs.World.Collectors
import PeerTrust.Proofs.World.Flatten
import PeerTrust.Proofs.World.Knots
import PeerTrust.Proofs.World.Swaps

/-!
# Chains that are captured

Where nothing is decided in a custom way, a validation puts the whole chain into a collector, once
for each place of that collector that is come to before a leaf accepts, whatever the verdict. Since
nothing else fills collectors, a collector holds just the chains of the validations since it was last
cleared.
-/

namespace PeerTrust

/-- What a validation is to put into a collector: a copy of the chain for each place that is come
to. -/
def Snapshot.copies (engine : Engine) (now : Nat) (context : Context) (collector : Nat)
    (snapshot : Snapshot) : List Certificate :=
  (List.replicate ((reached engine now context snapshot.captures).count collector)
    context.chain).flatten

namespace Operation

/-- Whether an operation validates with an acyclic stack in which nothing is decided in a custom way,
if it validates. -/
def IsPlain (world : World) : Operation → Prop
  | .validate _ validator _ =>
      world.Acyclic validator ∧ validator.Everywhere world.slots (·.enhancer? = none)
  | _ => True

/-- What an operation is to put into a collector. -/
def copies (engine : Engine) (collector : Nat) (moment : World × Operation) : List Certificate :=
  match moment.2 with
  | .validate now validator context =>
      ((moment.1.snapshot? validator).map (Snapshot.copies engine now context collector)).getD []
  | _ => []

theorem copies_validate {engine : Engine} {collector now : Nat} {world : World}
    {validator : Validator} {context : Context} {snapshot : Snapshot}
    (hsnapshot : world.snapshot? validator = some snapshot) :
    copies engine collector (world, .validate now validator context) =
      snapshot.copies engine now context collector := by
  simp [copies, hsnapshot]

end Operation

section
variable {engine : Engine} {now : Nat} {context : Context} {snapshot : Snapshot} {collector : Nat}

/-- There are no custom decisions in the snapshot of a stack that reaches none. -/
theorem World.enhancers_eq_nil_iff {world : World} {validator : Validator}
    (hsnapshot : world.snapshot? validator = some snapshot) :
    snapshot.enhancers = [] ↔ validator.Everywhere world.slots (·.enhancer? = none) := by
  rw [List.eq_nil_iff_forall_not_mem]
  simp only [mem_enhancers_iff hsnapshot]
  constructor
  · intro hnone part hreaches
    by_contra hpart
    obtain ⟨enhancer, henhancer⟩ := Option.ne_none_iff_exists'.mp hpart
    exact hnone enhancer ⟨part, hreaches, henhancer⟩
  · rintro hplain enhancer ⟨part, hreaches, hpart⟩
    rw [hplain part hreaches] at hpart
    cases hpart

/-- A validation puts just the copies into a collector. -/
theorem Snapshot.recordedIn_validate (hplain : snapshot.enhancers = []) :
    recordedIn collector (snapshot.validate engine now context).2 =
      snapshot.copies engine now context collector := by
  rw [recordedIn, recorded_validate hplain, copies, List.flatMap_map]
  induction reached engine now context snapshot.captures with
  | nil => rfl
  | cons first rest ih =>
    rw [List.flatMap_cons, ih, List.count_cons]
    by_cases hsame : first = collector
    · simp [hsame, List.replicate_succ]
    · simp [hsame]

theorem Operation.recordedIn_eq_copies {world : World} {operation : Operation}
    (hfits : operation.FitsIn world) (hplain : operation.IsPlain world) :
    operation.recordedIn engine world collector = copies engine collector (world, operation) := by
  cases operation with
  | validate now validator context =>
    obtain ⟨hacyclic, hstack⟩ := hplain
    have hcovers : world.Covers validator := hfits validator List.mem_cons_self
    obtain ⟨snapshot, hsnapshot⟩ := World.exists_snapshot hcovers hacyclic
    have henhancers := (World.enhancers_eq_nil_iff hsnapshot).mpr hstack
    rw [recordedIn, World.judge_of_snapshot hsnapshot, copies_validate hsnapshot,
      ← Snapshot.recordedIn_validate henhancers]
  | _ => rfl

/-- The place around everything is always come to. -/
theorem Snapshot.prefix_copies_capturing (inner : Snapshot) :
    context.chain <+: (capturing collector inner).copies engine now context collector := by
  have hfirst : reached engine now context (captures (.capturing collector inner)) =
      collector :: reached engine now context inner.captures := rfl
  rw [copies, hfirst, List.count_cons_self, List.replicate_succ, List.flatten_cons]
  exact List.prefix_append ..

end

namespace World

section
variable {engine : Engine} {first last : World} {history : List (World × Operation)}
  {collector : Nat} {initial : List Certificate}

/-- **Captured chains.** A validation with a stack without custom decisions returns and puts a copy
of the chain into each collector for each of its places that is come to. Along every run in which
all validations are of that kind, a collector holds just the copies of the validations since it was
last cleared, in their order, behind what it held at first if it was never cleared. If the collector
is around a stack, then each validation of the stack puts the chain into it. -/
theorem Run.collector_holds_copies (hrun : Run engine first history last)
    (hplain : ∀ moment ∈ history, moment.2.IsPlain moment.1)
    (hfirst : first.collectors[collector]? = some initial) :
    (∀ now validator context, last.Covers validator → last.Acyclic validator →
      validator.Everywhere last.slots (·.enhancer? = none) →
      ∃ snapshot verdict after, last.snapshot? validator = some snapshot ∧
        (validate engine now validator context).perform last = some (.ok verdict, after) ∧
        ∀ number : Nat, after.collectors[number]? =
          last.collectors[number]?.map (· ++ snapshot.copies engine now context number)) ∧
    ((∀ moment ∈ history, ¬ moment.2.clears collector) → last.collectors[collector]? =
      some (initial ++ history.flatMap (Operation.copies engine collector))) ∧
    (∀ earlier moment since, history = earlier ++ moment :: since →
      moment.2.clears collector → (∀ later ∈ since, ¬ later.2.clears collector) →
      last.collectors[collector]? = some (since.flatMap (Operation.copies engine collector))) ∧
    ∀ moment ∈ history, ∀ now inner context,
      moment.2 = .validate now (.capturing collector inner) context →
      context.chain <+: Operation.copies engine collector moment := by
  have hcopies {moments : List (World × Operation)} (hsub : moments ⊆ history) :
      (moments.flatMap fun moment => moment.2.recordedIn engine moment.1 collector) =
        moments.flatMap (Operation.copies engine collector) :=
    List.flatMap_congr fun moment hmem =>
      Operation.recordedIn_eq_copies (hrun.returned moment (hsub hmem)).1 (hplain moment (hsub hmem))
  have hholds := hrun.collectors_eq hfirst
  refine ⟨fun now validator context hcovers hacyclic hstack => ?_, fun hclears => ?_, ?_, ?_⟩
  · obtain ⟨snapshot, hsnapshot⟩ := exists_snapshot hcovers hacyclic
    refine ⟨snapshot, _, _, hsnapshot, validate_perform_of_snapshot hsnapshot engine now context,
      fun number => ?_⟩
    rw [getElem?_collectors_applyAll,
      Snapshot.recordedIn_validate ((enhancers_eq_nil_iff hsnapshot).mpr hstack)]
  · rw [hholds, foldl_held_of_not_cleared hclears, hcopies (List.Subset.refl history)]
  · rintro earlier moment since rfl hclears hsince
    rw [hholds, foldl_held_of_cleared hclears hsince]
    rw [hcopies fun later hmem => List.mem_append_right _ (List.mem_cons_of_mem _ hmem)]
  · rintro ⟨world, operation⟩ hmem now inner context rfl
    have hcovers : world.Covers (.capturing collector inner) :=
      (hrun.returned _ hmem).1 _ List.mem_cons_self
    obtain ⟨snapshot, hsnapshot⟩ := exists_snapshot hcovers (hplain _ hmem).1
    obtain ⟨inside, -, rfl⟩ :=
      Option.map_eq_some_iff.mp ((snapshot?_capturing collector inner).symm.trans hsnapshot)
    rw [Operation.copies_validate hsnapshot]
    exact inside.prefix_copies_capturing

end

/-- A collector around a slot and inside of itself, a validator that accepts everything, and the
collector again. -/
def capturedTwice : Validator :=
  .composite [.capturing 0 (.capturing 0 (.hotSwappable 0)), .dummy, .capturing 0 .trustAll]

/-- A world with a slot, and with a collector that holds the given certificates. -/
def collecting (contents : List Certificate) : World :=
  { slotAndCollector with collectors := [contents] }

theorem collecting_covers_capturedTwice (contents : List Certificate) :
    (collecting contents).Covers capturedTwice := by
  have hcaptured {inner : Validator} (hinner : (collecting contents).Covers inner) :
      (collecting contents).Covers (.capturing 0 inner) := covers_capturing Nat.zero_lt_one hinner
  refine covers_composite fun member hmem => ?_
  simp only [List.mem_cons, List.not_mem_nil, or_false] at hmem
  rcases hmem with rfl | rfl | rfl
  · exact hcaptured (hcaptured (covers_hotSwappable rfl (covers_base _)))
  · exact covers_dummy
  · exact hcaptured covers_trustAll

/-- Of two validations, only the one after the collector was cleared is found in it. Its chain is
there twice, and not once more for the place behind the validator that accepted it. -/
theorem capturedTwice_collects : ∃ history last, Run .paths (collecting []) history last ∧
    history.map Prod.snd = [.validate 0 capturedTwice (.ofChain .client [⟨[1]⟩]),
      .clearCollector 0, .validate 0 capturedTwice (.ofChain .client [⟨[2]⟩, ⟨[3]⟩])] ∧
    last.collectors[0]? = some [⟨[2]⟩, ⟨[3]⟩, ⟨[2]⟩, ⟨[3]⟩] := by
  have hsnapshot (contents : List Certificate) :
      (collecting contents).snapshot? capturedTwice = some _ := rfl
  have hplain (contents chain : List Certificate) :
      (Operation.validate 0 capturedTwice (.ofChain .client chain)).IsPlain (collecting contents) :=
    ⟨acyclic_of_snapshotWithin (Option.isSome_of_mem (hsnapshot contents)),
      (enhancers_eq_nil_iff (hsnapshot contents)).mp rfl⟩
  have hvalidated : Run .paths (collecting []) _ (collecting [⟨[1]⟩, ⟨[1]⟩]) :=
    Run.start.validated (collecting_covers_capturedTwice _) (hsnapshot []) 0
      (.ofChain .client [⟨[1]⟩])
  have hclear (world : World) : (Operation.clearCollector 0).FitsIn world := List.forall_mem_nil _
  have hcleared := hvalidated.step (hclear _) (rfl : _ = some (collecting []))
  have hrun : Run .paths (collecting []) _ (collecting [⟨[2]⟩, ⟨[3]⟩, ⟨[2]⟩, ⟨[3]⟩]) :=
    hcleared.validated (collecting_covers_capturedTwice _) (hsnapshot []) 0
      (.ofChain .client [⟨[2]⟩, ⟨[3]⟩])
  obtain ⟨-, -, hsince, -⟩ := hrun.collector_holds_copies (by
    simp only [List.nil_append, List.cons_append, List.forall_mem_cons]
    exact ⟨hplain _ _, trivial, hplain _ _, List.forall_mem_nil _⟩)
    (rfl : (collecting []).collectors[0]? = some [])
  exact ⟨_, _, hrun, rfl, hsince [_] _ [_] rfl rfl (List.forall_mem_singleton.mpr not_false)⟩

end World

end PeerTrust
