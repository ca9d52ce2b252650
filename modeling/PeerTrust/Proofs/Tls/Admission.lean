import PeerTrust.Proofs.World.AnyOf
import PeerTrust.Proofs.World.Perform
import PeerTrust.Tls.Adapter

/-!
# Who is admitted

A handshake hands a chain to the policy that is never empty. So however validators are nested, a
rejection is for want of an anchor, because the chain could not be verified, or because a policy
refuses it. The verifiers of both sides report a rejection as it is, and only what the policy accepts
is asked for its name.
-/

namespace PeerTrust

/-- A fault that the verification of some chain ends with. -/
def Engine.Reports (engine : Engine) (fault : TlsFault) : Prop :=
  ∃ roots role leaf intermediates now,
    engine.verify roots role leaf intermediates now = .error fault

/-- The faults for which a chain that is not empty can be rejected. -/
inductive Engine.ChainFault (engine : Engine) : TlsFault → Prop
  | noAnchors : ChainFault engine .unknownIssuer
  | unverified {fault : TlsFault} (hreports : engine.Reports fault) : ChainFault engine fault
  | refused : ChainFault engine .refusedByPolicy

section
variable {engine : Engine} {now : Nat} {context : Context} {leaf : Certificate}
  {rejection : Rejection}

/-- Fixed anchors reject a chain for want of anchors or because it could not be verified. -/
theorem Base.chainFault_of_rejected {base : Base} (hleaf : context.leaf? = some leaf)
    (hrejected : base.validate engine now context = .error rejection) :
    engine.ChainFault rejection.tlsFault := by
  simp only [Base.validate, hleaf] at hrejected
  split at hrejected
  · cases hrejected
    exact .noAnchors
  · obtain ⟨fault, hfault, rfl⟩ := Except.mapError_eq_error.mp hrejected
    exact .unverified ⟨_, _, _, _, _, hfault⟩

/-- **Faults of chains.** However validators are nested, the rejection of a chain that is not empty
is never that of an empty one. -/
theorem Snapshot.chainFault_of_rejected {snapshot : Snapshot} (hleaf : context.leaf? = some leaf)
    (hrejected : snapshot.verdict engine now context = .error rejection) :
    engine.ChainFault rejection.tlsFault := by
  induction snapshot generalizing rejection with
  | base anchored => exact Base.chainFault_of_rejected hleaf hrejected
  | composite members ih =>
    rw [verdict, validate_composite] at hrejected
    rcases Verdict.accepted_or_rejected (members.map (verdict engine now · context)) with
      haccepted | ⟨rejections, hall⟩
    · rw [validateAny_of_accepted haccepted] at hrejected
      cases hrejected
    · rw [validateAny_of_rejected hall] at hrejected
      cases hrejected
      exact .refused
  | inflatable pool published predicate =>
    change Pool.verdict engine now published predicate context = .error rejection at hrejected
    unfold Pool.verdict at hrejected
    split at hrejected
    · split at hrejected
      · cases hrejected
      · exact Base.chainFault_of_rejected hleaf hrejected
    · exact Base.chainFault_of_rejected hleaf hrejected
  | hotSwappable slot delegate ih => exact ih hrejected
  | enhanceable inner enhancer ih =>
    cases enhancer with
    | none => exact ih hrejected
    | some enhancer =>
      rw [verdict, validate_enhanceable] at hrejected
      dsimp only at hrejected
      split at hrejected
      · cases hrejected
      · cases hrejected
        exact .refused
  | logging inner ih => exact ih hrejected
  | capturing collector inner ih => exact ih hrejected
  | trustAll => cases hrejected
  | dummy => cases hrejected

end

/-- The result of a verifier follows the verdict about the chain, and whether the name is the right
one. -/
structure Admits (verdict : Verdict) (isNamed : Bool) (result : Except TlsFault Unit) : Prop where
  admitted_iff : result = .ok () ↔ verdict = .ok () ∧ isNamed = true
  /-- A rejection is reported as it is, whatever the name. -/
  rejected : ∀ rejection, verdict = .error rejection → result = .error rejection.tlsFault
  /-- Nothing is said about the name unless the chain is accepted. -/
  misnamed : result = .error .notValidForName → verdict = .ok () ∧ isNamed = false
  /-- The chain is never taken for an empty one. -/
  presented : result ≠ .error .noCertificates

/-- What a verifier reports. -/
def Verdict.reported (verdict : Verdict) (isNamed : Bool) : Except TlsFault Unit :=
  match verdict with
  | .error rejection => .error rejection.tlsFault
  | .ok () => if isNamed then .ok () else .error .notValidForName

section
variable {engine : Engine} {now : Nat} {world : World} {snapshot : Snapshot} {leaf : Certificate}
  {intermediates : List Certificate}

/-- What is reported follows the verdict, unless the verification of chains itself says that there is
no certificate or no name. -/
theorem Snapshot.admits_reported {context : Context} (hnone : ¬ engine.Reports .noCertificates)
    (hname : ¬ engine.Reports .notValidForName) (hleaf : context.leaf? = some leaf)
    (isNamed : Bool) :
    Admits (snapshot.verdict engine now context) isNamed
      ((snapshot.verdict engine now context).reported isNamed) := by
  cases hverdict : snapshot.verdict engine now context with
  | ok accepted =>
    cases isNamed with
    | true => constructor <;> simp [Verdict.reported]
    | false => constructor <;> simp [Verdict.reported]
  | error rejection =>
    have hfault := chainFault_of_rejected hleaf hverdict
    have hpresented : rejection.tlsFault ≠ .noCertificates := by
      intro hsame
      rw [hsame] at hfault
      cases hfault with
      | unverified hreports => exact hnone hreports
    have hnamed : rejection.tlsFault ≠ .notValidForName := by
      intro hsame
      rw [hsame] at hfault
      cases hfault with
      | unverified hreports => exact hname hreports
    constructor <;> simp [Verdict.reported, hpresented, hnamed]

/-- The verifier of a server reports the verdict about the chain of the client. -/
theorem ClientVerifier.verify_perform (verifier : ClientVerifier)
    (hsnapshot : world.snapshot? verifier.validator = some snapshot) :
    let validated := snapshot.validate engine now (context leaf intermediates)
    (verifier.verify engine now leaf intermediates).perform world =
      some (.ok (validated.1.reported true), world.applyAll validated.2) := by
  rw [verify, Action.perform_bind, World.validate_perform, World.judge_of_snapshot hsnapshot,
    Option.map_some]
  rcases snapshot.validate engine now (context leaf intermediates) with ⟨_ | _, effects⟩
  · rfl
  · rfl

/-- The verifier of a client reports the verdict about the chain of the server and, if that accepts
the chain, whether the name is accepted. -/
theorem ServerVerifier.verify_perform (verifier : ServerVerifier) (name : ServerName)
    (hsnapshot : world.snapshot? verifier.validator = some snapshot) :
    let validated := snapshot.validate engine now (verifier.context name leaf intermediates)
    let isNamed := (verifier.hostname.verify (verifier.request name leaf intermediates)).1
    ∃ events, (verifier.verify engine now name leaf intermediates).perform world =
      some (.ok (validated.1.reported isNamed), (world.applyAll validated.2).tell events) := by
  rw [verify, Action.perform_bind, World.validate_perform, World.judge_of_snapshot hsnapshot,
    Option.map_some]
  rcases snapshot.validate engine now (verifier.context name leaf intermediates) with
    ⟨rejection | accepted, effects⟩
  · exact ⟨[], by simp [Verdict.reported, World.tell]⟩
  · rcases verifier.hostname.verify (verifier.request name leaf intermediates) with
      ⟨isNamed, events⟩
    cases isNamed with
    | true => exact ⟨events, by simp [Verdict.reported, World.tell]⟩
    | false =>
      exact ⟨events ++ [.nameMismatch name.toText], by simp [Verdict.reported, World.tell]⟩

/-- **Admission.** Whatever the acyclic validator of a verifier is made of, the verifier returns. A
server admits a client exactly if its validator accepts the chain in the role of a client; a client
admits a server exactly if its validator accepts the chain in the role of a server and its host name
policy accepts the name. A rejection is reported as it is, a wrong name only after the chain was
accepted, and a missing certificate never. -/
theorem admits_iff_trusted {validator : Validator} (hnone : ¬ engine.Reports .noCertificates)
    (hname : ¬ engine.Reports .notValidForName) (hcovers : world.Covers validator)
    (hacyclic : world.Acyclic validator) (now : Nat) (leaf : Certificate)
    (intermediates : List Certificate) :
    (∀ verifier : ClientVerifier, verifier.validator = validator →
      ∃ verdict result after final,
        (World.validate engine now validator
          ⟨.client, leaf :: intermediates, leaf.authType, none⟩).perform world =
            some (.ok verdict, after) ∧
        (verifier.verify engine now leaf intermediates).perform world =
          some (.ok result, final) ∧
        Admits verdict true result) ∧
    ∀ (verifier : ServerVerifier) (name : ServerName), verifier.validator = validator →
      ∃ verdict result after final,
        (World.validate engine now validator
          ⟨.server, leaf :: intermediates, leaf.authType,
            some ⟨some name.toText, verifier.peerAddress⟩⟩).perform world =
              some (.ok verdict, after) ∧
        (verifier.verify engine now name leaf intermediates).perform world =
          some (.ok result, final) ∧
        Admits verdict
          (verifier.hostname.verify ⟨name.toText, verifier.peerHost, leaf :: intermediates⟩).1
          result := by
  obtain ⟨snapshot, hsnapshot⟩ := World.exists_snapshot hcovers hacyclic
  constructor
  · rintro verifier rfl
    exact ⟨_, _, _, _, World.validate_perform_of_snapshot hsnapshot engine now _,
      verifier.verify_perform hsnapshot, Snapshot.admits_reported hnone hname rfl true⟩
  · rintro verifier name rfl
    obtain ⟨events, hperform⟩ := verifier.verify_perform name hsnapshot
    exact ⟨_, _, _, _, World.validate_perform_of_snapshot hsnapshot engine now _, hperform,
      Snapshot.admits_reported hnone hname rfl _⟩

end

/-- A search for certification paths blames the path for every fault. -/
theorem Engine.paths_reports {fault : TlsFault} (hreports : Engine.paths.Reports fault) :
    ∃ cause, fault = .untrustedPath cause := by
  obtain ⟨roots, role, leaf, intermediates, now, hverify⟩ := hreports
  obtain ⟨cause, -, hcause⟩ := Except.mapError_eq_error.mp hverify
  exact ⟨cause, hcause.symm⟩

/-- A host name policy that accepts every name does not save a chain that the validator rejects. -/
theorem server_rejected_despite_name : ∃ final,
    (ServerVerifier.verify .paths 0 ⟨World.slotOrDeclining, .acceptAll, none, none⟩ (.dns "a")
      ⟨[]⟩ []).perform (World.oneSlot (.base ⟨[], []⟩)) =
        some (.ok (.error .refusedByPolicy), final) := by
  have hnone : ¬ Engine.paths.Reports .noCertificates := by
    intro hreports
    obtain ⟨cause, hcause⟩ := Engine.paths_reports hreports
    cases hcause
  have hname : ¬ Engine.paths.Reports .notValidForName := by
    intro hreports
    obtain ⟨cause, hcause⟩ := Engine.paths_reports hreports
    cases hcause
  obtain ⟨-, hserver⟩ := admits_iff_trusted hnone hname
    (World.oneSlot_covers_slotOrDeclining ⟨[], []⟩) (World.oneSlot_acyclic_slotOrDeclining ⟨[], []⟩)
    0 ⟨[]⟩ []
  obtain ⟨verdict, result, after, final, hvalidate, hverify, hadmits⟩ :=
    hserver ⟨World.slotOrDeclining, .acceptAll, none, none⟩ (.dns "a") rfl
  have hsnapshot : (World.oneSlot (.base ⟨[], []⟩)).snapshot? World.slotOrDeclining = some _ := rfl
  have hgiven := (World.validate_perform_of_snapshot hsnapshot .paths 0 _).symm.trans hvalidate
  cases hgiven
  rw [hadmits.rejected _ rfl] at hverify
  exact ⟨final, hverify⟩

end PeerTrust
