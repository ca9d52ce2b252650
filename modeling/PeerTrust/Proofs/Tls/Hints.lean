import PeerTrust.Proofs.Tls.Session
import PeerTrust.Proofs.Trust.Growth
import PeerTrust.Proofs.World.Static

/-!
# Hints

A server tells its clients the names of the anchors that it trusts. The names are taken when its
verifier is made, and only if the validator is static, so they are those of the current issuers ever
after. There is one for each issuer, since all issuers of a static validator are anchors.
-/

namespace PeerTrust

/-- The hints of a verifier are what they should be: there are none if what is trusted can change,
and else they are the names of the issuers, in the same order. -/
inductive ClientVerifier.IsCurrent (engine : Engine) (world : World) (verifier : ClientVerifier) :
    Prop
  | withheld (hdynamic : verifier.validator.isDynamic = true) (hnone : verifier.hints = [])
  | given (hstatic : verifier.validator.isDynamic = false) {snapshot : Snapshot}
      (hsnapshot : world.snapshot? verifier.validator = some snapshot)
      (hnames : List.Forall₂
        (fun issuer hint => (engine.anchor issuer).map Path.Anchor.name = .ok hint)
        snapshot.issuers verifier.hints)

section
variable {engine : Engine} {usable : Store → Prop} {validators : List Validator}
  {validator : Validator}

/-- The hints are the names of the issuers if all issuers are anchors. -/
theorem ClientVerifier.forall₂_hintsOf {issuers : List Certificate}
    (hanchors : ∀ issuer ∈ issuers, ∃ anchor, engine.anchor issuer = .ok anchor) :
    List.Forall₂ (fun issuer hint => (engine.anchor issuer).map Path.Anchor.name = .ok hint)
      issuers (hintsOf engine issuers) := by
  induction issuers with
  | nil => exact .nil
  | cons issuer rest ih =>
    obtain ⟨⟨anchor, hanchor⟩, hrest⟩ := List.forall_mem_cons.mp hanchors
    have hhints : hintsOf engine (issuer :: rest) = anchor.name :: hintsOf engine rest := by
      rw [hintsOf, List.filterMap_cons, hanchor]
      rfl
    rw [hhints]
    refine .cons ?_ (ih hrest)
    rw [hanchor]
    rfl

/-- The issuers of an anchored static validator are anchors. -/
theorem anchor_of_mem_issuers {world : World} {snapshot : Snapshot}
    (hanchored : Anchored engine usable validator) (hstatic : validator.isDynamic = false)
    (hsnapshot : world.snapshot? validator = some snapshot) {issuer : Certificate}
    (hissuer : issuer ∈ snapshot.issuers) : ∃ anchor, engine.anchor issuer = .ok anchor := by
  obtain ⟨anchored, hreaches, hissuer⟩ := World.exists_base_of_static hstatic hsnapshot hissuer
  obtain ⟨anchors, -, hanchors⟩ := hanchored _ hreaches
  rw [Base.issuers_of_ofStore hanchors] at hissuer
  exact Base.anchor_of_ofStore hanchors hissuer

/-- A verifier that is made of an anchored validator has the hints it should have. -/
theorem ClientVerifier.isCurrent_of_make {world next : World} {isMandatory : Bool}
    {mode : Option Nat} {verifier : ClientVerifier} (hanchored : Anchored engine usable validator)
    (hmake : (make engine validator isMandatory mode).perform world = some (.ok verifier, next)) :
    verifier.IsCurrent engine next := by
  unfold make at hmake
  cases hdynamic : validator.isDynamic with
  | true =>
    rw [hdynamic, if_pos rfl] at hmake
    cases hmake
    exact .withheld hdynamic rfl
  | false =>
    rw [hdynamic, if_neg Bool.false_ne_true, Action.perform_snapshot_bind] at hmake
    obtain ⟨snapshot, hsnapshot, hmake⟩ := Option.bind_eq_some_iff.mp hmake
    cases hmake
    refine .given hdynamic hsnapshot (forall₂_hintsOf fun issuer hissuer => ?_)
    exact anchor_of_mem_issuers hanchored hdynamic hsnapshot hissuer

/-- Hints that are what they should be in one world are so in all worlds. -/
theorem ClientVerifier.IsCurrent.later {world : World} {verifier : ClientVerifier}
    (hcurrent : verifier.IsCurrent engine world) (later : World) :
    verifier.IsCurrent engine later := by
  cases hcurrent with
  | withheld hdynamic hnone => exact .withheld hdynamic hnone
  | given hstatic hsnapshot hnames =>
    obtain ⟨snapshot, -, hall⟩ := World.exists_snapshot_of_static hstatic
    rw [hall world] at hsnapshot
    cases hsnapshot
    exact .given hstatic (hall later) hnames

/-- **Run lemma.** In a session the hints of all verifiers are what they should be. -/
theorem Session.hints_current {world : World} {verifiers : List ClientVerifier}
    (hsession : Session engine world validators verifiers) :
    ∀ verifier ∈ verifiers, verifier.IsCurrent engine world := by
  induction hsession with
  | start files environment => exact List.forall_mem_nil _
  | @operate world next validators verifiers operation hsession hgiven hnext ih =>
    exact fun verifier hmem => (ih verifier hmem).later next
  | make hsession hmade ih => exact ih
  | unwrap hsession hmem hchild ih => exact ih
  | verify hsession hmem hmake ih =>
    have hcurrent := ClientVerifier.isCurrent_of_make (hsession.anchored.1 _ hmem) hmake
    exact List.forall_mem_cons.mpr ⟨hcurrent, fun verifier hmem => (ih verifier hmem).later _⟩
  | switch hsession modes events ih => exact fun verifier hmem => (ih verifier hmem).later _

end

/-- **Static validators and hints.** A static validator is the same before and after every run, and
it refuses every change. So in every session the hints of a verifier are none if its validator is
dynamic, and else they are the names of the issuers that its validator has now. -/
theorem static_kept_and_hints_current (engine : Engine) :
    (∀ validator first history last, validator.isDynamic = false →
      World.Run engine first history last → World.Keeps engine first last validator) ∧
    ∀ world validators verifiers, Session engine world validators verifiers →
      ∀ verifier ∈ verifiers, verifier.IsCurrent engine world := by
  constructor
  · intro validator first history last hstatic _
    exact World.keeps_of_static hstatic engine first last
  · intro world validators verifiers hsession
    exact hsession.hints_current

/-- Fixed anchors read from two certificates. -/
def twoAnchors : Base := ⟨[⟨[1]⟩, ⟨[2]⟩], [⟨[1], []⟩, ⟨[2], []⟩]⟩

/-- The verifier of a server that trusts two anchors. -/
def twoAnchorsVerifier : ClientVerifier where
  validator := .base twoAnchors
  hints := [Asn1.Der.encode Asn1.Der.sequence [1], Asn1.Der.encode Asn1.Der.sequence [2]]
  isMandatory := true
  mode := none

/-- A verifier whose validator also stands in a slot keeps the hints about both anchors, and still
has the right ones after another validator was swapped into the slot. -/
theorem hints_current_after_swap : ∃ first last history validators,
    World.Run Pool.contentsEngine first history last ∧ history ≠ [] ∧
    World.Keeps Pool.contentsEngine first last twoAnchorsVerifier.validator ∧
    Session Pool.contentsEngine last validators [twoAnchorsVerifier] ∧
    twoAnchorsVerifier.IsCurrent Pool.contentsEngine last := by
  obtain ⟨hkept, hcurrent⟩ := static_kept_and_hints_current Pool.contentsEngine
  have hbase : Session Pool.contentsEngine (.start .empty []) [.base twoAnchors] [] :=
    @Session.operate _ _ _ _ _ (.makeBase [⟨[1]⟩, ⟨[2]⟩] .default) (.start .empty [])
      (List.forall_mem_nil _) rfl
  have hslot : Session Pool.contentsEngine (World.oneSlot (.base twoAnchors))
      [.hotSwappable 0, .base twoAnchors] [] :=
    @Session.operate _ _ _ _ _ (.makeSlot (.base twoAnchors)) hbase
      (List.forall_mem_singleton.mpr List.mem_cons_self) rfl
  have hverifier : Session Pool.contentsEngine (World.oneSlot (.base twoAnchors))
      [.dummy, .hotSwappable 0, .base twoAnchors] [twoAnchorsVerifier] :=
    (hslot.verify (List.mem_cons_of_mem _ List.mem_cons_self) rfl).make .dummy
  have hgiven : ∀ given ∈ [Validator.hotSwappable 0, .dummy],
      given ∈ [Validator.dummy, .hotSwappable 0, .base twoAnchors] := by
    simp
  have hswapped := @Session.operate _ _ _ _ _ (.swap (.hotSwappable 0) .dummy) hverifier
    hgiven rfl
  have hrun := (@World.Run.start Pool.contentsEngine (World.oneSlot (.base twoAnchors))).swap
    (World.oneSlot_covers (World.covers_base twoAnchors)) World.covers_dummy rfl rfl
  exact ⟨_, _, _, _, hrun, List.cons_ne_nil _ _, hkept _ _ _ _ rfl hrun, hswapped,
    hcurrent _ _ _ hswapped _ List.mem_cons_self⟩

end PeerTrust
