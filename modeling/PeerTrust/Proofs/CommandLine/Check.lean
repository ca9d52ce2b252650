import PeerTrust.CommandLine.Program
import PeerTrust.Proofs.Hostname.Spelling
import PeerTrust.Proofs.Net.Address
import PeerTrust.Proofs.Settings.Stack
import PeerTrust.Proofs.Tls.Admission

/-!
# The check of a chain and the handshake

A check goes its own way: it knows nothing about a connection, and it asks for the host name as it
was typed. The verifiers of a handshake know the connection, and they ask for the name as it is
written canonically. Both come to the same result, because the validator that is set does not look
at the connection, and because an address is read back from its canonical text.
-/

namespace PeerTrust

section
variable {engine : Engine} {now : Nat} {first second : Context}

/-- Fixed anchors look at the role and the chain only. -/
theorem Base.validate_congr (hrole : first.role = second.role) (hchain : first.chain = second.chain)
    (anchored : Base) :
    anchored.validate engine now first = anchored.validate engine now second := by
  simp only [Base.validate, Context.leaf?, Context.intermediates, hrole, hchain]

end

namespace World

open Settings

section
variable {engine : Engine} {now : Nat} {world after : World} {settings : TrustSettings}
  {validator : Validator} {parts : List Validator} {first second : Context}

/-- The validators of sources do not look at the connection. -/
theorem accepts_congr_of_becomes {sources : List TrustSource}
    (hparts : List.Forall₂ (Becomes engine world after) sources parts)
    (hrole : first.role = second.role) (hchain : first.chain = second.chain) :
    ∀ part ∈ parts, after.Accepts engine now part first ↔ after.Accepts engine now part second := by
  induction hparts with
  | nil => exact List.forall_mem_nil _
  | cons hfirst hrest ih =>
    obtain ⟨anchored, -, -, -, haccepts⟩ := hfirst
    refine List.forall_mem_cons.mpr ⟨?_, ih⟩
    rw [haccepts, haccepts, Base.validate_congr hrole hchain]

/-- The validator that is set does not look at the connection. -/
theorem Stands.accepts_congr (hstands : Stands engine world after settings validator parts)
    (hrole : first.role = second.role) (hchain : first.chain = second.chain) :
    after.Accepts engine now validator first ↔ after.Accepts engine now validator second := by
  have hparts := @accepts_congr_of_becomes _ now _ _ _ _ _ _ hstands.sources hrole hchain
  rw [hstands.accepts_iff, hstands.accepts_iff]
  refine or_congr_right (exists_congr fun part => ?_)
  exact and_congr_right (hparts part)

/-- Whenever the validator that is set was built, it stands. -/
theorem exists_stands (hbuilt : (buildSet engine settings).perform world =
    some (.ok validator, after)) : ∃ parts, Stands engine world after settings validator parts := by
  rcases buildSet_perform engine world settings with
    ⟨error, events, -, hperform⟩ | ⟨sources, pools, events, hsources, hpools, hperform⟩
  · rw [hperform] at hbuilt
    cases hbuilt
  rw [hperform] at hbuilt
  cases hinner : (settings.builder sources).inner? engine world.files world.environment with
  | error error =>
    obtain ⟨last, hfails, -⟩ := @build_fails engine settings
      { world.tell events with pools := world.pools ++ pools } sources error hinner
    rw [hfails] at hbuilt
    cases hbuilt
  | ok inner =>
    obtain ⟨hsome, parts, hparts, -⟩ := TrustSettings.inner?_eq_ok.mp hinner
    obtain ⟨other, last, hstanding, -, hstands⟩ := @build_stands engine world settings
      { world.tell events with pools := world.pools ++ pools } pools sources parts
      rfl rfl rfl rfl hpools hsources hparts hsome
    rw [hstanding] at hbuilt
    cases hbuilt
    exact ⟨parts, hstands⟩

end

end World

namespace Hostname

/-- A name is found in the same certificates if it is written canonically. -/
theorem isNamed_toText {hostname : String} {name : ServerName}
    (hname : ServerName.parse? hostname = some name) (certificates : List Certificate) :
    isNamed name.toText certificates = isNamed hostname certificates := by
  unfold ServerName.parse? at hname
  split at hname
  · cases hname
    rfl
  · obtain ⟨address, hparse, rfl⟩ := Option.map_eq_some_iff.mp hname
    have hcanonical := IpAddress.parse?_toText address
    rw [ServerName.toText, isNamed, isNamed, literal_of_parse? hcanonical, hcanonical,
      literal_of_parse? hparse, hparse]

/-- So the policies that look at the certificate only decide about it in the same way, whatever the
host of the connection is. -/
theorem Verifier.verify_toText {verifier : Verifier} {hostname : String} {name : ServerName}
    (hverifier : verifier = .names ∨ verifier = .acceptAll)
    (hname : ServerName.parse? hostname = some name) (peerHost : Option String)
    (certificates : List Certificate) :
    (verifier.verify ⟨name.toText, peerHost, certificates⟩).1 =
      (verifier.verify ⟨hostname, none, certificates⟩).1 := by
  rcases hverifier with rfl | rfl
  · have hnames := isNamed_toText hname certificates
    rwa [← answer_names peerHost, ← answer_names none] at hnames
  · rfl

end Hostname

/-- A chain is admitted by a verifier of handshakes. -/
def Action.Admits (decision : Action (Except TlsFault Unit)) (world : World) : Prop :=
  ∃ last, decision.perform world = some (.ok (.ok ()), last)

theorem Action.admits_iff {decision : Action (Except TlsFault Unit)} {world last : World}
    {result : Except TlsFault Unit} (hperform : decision.perform world = some (.ok result, last)) :
    decision.Admits world ↔ result = .ok () := by
  rw [Action.Admits, hperform]
  constructor
  · rintro ⟨after, h⟩
    cases h
    rfl
  · rintro rfl
    exact ⟨last, rfl⟩

section
variable {engine : Engine} {now : Nat} {world : World} {snapshot : Snapshot} {leaf : Certificate}
  {intermediates : List Certificate}

theorem Verdict.isOk_iff {verdict : Verdict} : verdict.isOk = true ↔ verdict = .ok () := by
  rcases verdict with rejection | accepted
  · simp [Except.isOk, Except.toBool]
  · simp [Except.isOk, Except.toBool]

theorem Verdict.reported_eq_ok {verdict : Verdict} {isNamed : Bool} :
    verdict.reported isNamed = .ok () ↔ verdict = .ok () ∧ isNamed = true := by
  rcases verdict with rejection | accepted
  · simp [Verdict.reported]
  · cases isNamed with
    | true => simp [Verdict.reported]
    | false => simp [Verdict.reported]

/-- The verifier of a server admits what its validator accepts. -/
theorem ClientVerifier.admits_iff (verifier : ClientVerifier)
    (hsnapshot : world.snapshot? verifier.validator = some snapshot) :
    (verifier.verify engine now leaf intermediates).Admits world ↔
      world.Accepts engine now verifier.validator (context leaf intermediates) := by
  have hverify := @verify_perform engine now world snapshot leaf intermediates verifier hsnapshot
  have hreported := @Verdict.reported_eq_ok
    (snapshot.verdict engine now (context leaf intermediates)) true
  rw [World.accepts_iff_verdict hsnapshot, Action.admits_iff hverify]
  exact hreported.trans (and_iff_left rfl)

/-- The verifier of a client admits what its validator accepts, if the name is accepted too. -/
theorem ServerVerifier.admits_iff (verifier : ServerVerifier) (name : ServerName)
    (hsnapshot : world.snapshot? verifier.validator = some snapshot) :
    (verifier.verify engine now name leaf intermediates).Admits world ↔
      world.Accepts engine now verifier.validator (verifier.context name leaf intermediates) ∧
        (verifier.hostname.verify (verifier.request name leaf intermediates)).1 = true := by
  obtain ⟨events, hverify⟩ :=
    @verify_perform engine now world snapshot leaf intermediates verifier name hsnapshot
  rw [World.accepts_iff_verdict hsnapshot, Action.admits_iff hverify]
  exact Verdict.reported_eq_ok

end

/-- What the verifiers of both sides are made for, apart from the validator and the policy about
names. -/
structure Connection where
  hints : List Bytes
  isMandatory : Bool
  mode : Option Nat
  peerAddress : Option SocketAddress
  peerHost : Option String
  name : ServerName

/-- The decision of the verifier that faces a peer in a role. Only the name of a server is
verified. -/
def Connection.decide (connection : Connection) (engine : Engine) (now : Nat) (role : Role)
    (validator : Validator) (policy : Hostname.Verifier) (leaf : Certificate)
    (intermediates : List Certificate) : Action (Except TlsFault Unit) :=
  match role with
  | .client =>
      ClientVerifier.verify engine now
        ⟨validator, connection.hints, connection.isMandatory, connection.mode⟩ leaf intermediates
  | .server =>
      ServerVerifier.verify engine now
        ⟨validator, policy, connection.peerAddress, connection.peerHost⟩ connection.name leaf
        intermediates

namespace CommandLine

/-- Everything that a check needs was loaded: the settings, their validator, which leaves a world
behind, and a chain that is not empty. -/
structure Loaded (engine : Engine) (world : World) (request : Request) (settings : Settings)
    (validator : Validator) (after : World) (leaf : Certificate)
    (intermediates : List Certificate) : Prop where
  loads : Settings.load world.files world.environment request.config = .ok settings
  builds : (World.buildSet engine settings.trust).perform world = some (.ok validator, after)
  holds : after.files.certificates request.chain = .ok (leaf :: intermediates)

section
variable {engine : Engine} {now : Nat} {world after : World} {request : Request}
  {settings : Settings} {validator : Validator} {leaf : Certificate}
  {intermediates : List Certificate}

theorem Answer.report_status {answer : Answer} {filter : LogFilter} :
    (answer.report filter).status = 0 ↔ answer.outcome = .ok true := by
  unfold Answer.report
  split
  · simp [*]
  · simp [*]
  · simp [*]

/-- What the check of a name comes to. -/
theorem checkHostname_perform (policy : Settings.HostnamePolicy) (hostname : String)
    (chain : List Certificate) (leaf : Certificate) (world : World) :
    ∃ outcome lines last, (checkHostname policy hostname chain leaf).perform world =
        some (.ok (outcome, lines), last) ∧
      (outcome = .ok true ↔ (policy.verifier.1.verify ⟨hostname, none, chain⟩).1 = true) := by
  unfold checkHostname
  rcases policy.verifier with ⟨verifier, told⟩
  dsimp only
  rcases hverify : verifier.verify ⟨hostname, none, chain⟩ with ⟨isAccepted, events⟩
  cases isAccepted with
  | true => exact ⟨_, _, _, rfl, by simp⟩
  | false =>
    cases hinfo : leaf.info? with
    | none =>
      refine ⟨.error (.trust (.configuration .unreadableCertificate)), [],
        (world.tell told).tell events, ?_, by simp⟩
      simp
    | some info =>
      refine ⟨.ok false, [mismatchLine hostname info], (world.tell told).tell events, ?_, by simp⟩
      simp

/-- What a check comes to once everything is loaded. -/
theorem check_perform {verdict : Verdict} {later : World}
    (hbuilds : (World.buildSet engine settings.trust).perform world = some (.ok validator, after))
    (hholds : after.files.certificates request.chain = .ok (leaf :: intermediates))
    (hvalidate : (World.validate engine now validator
      (Context.ofChain request.role (leaf :: intermediates))).perform after =
        some (.ok verdict, later)) :
    ∃ answer last, (check engine now settings request).perform world = some (.ok answer, last) ∧
      (answer.outcome = .ok true ↔ verdict = .ok () ∧ ∀ hostname ∈ request.hostname,
        (settings.hostname.verifier.1.verify ⟨hostname, none, leaf :: intermediates⟩).1 = true) := by
  have hverdict := @Verdict.isOk_iff verdict
  cases hhostname : request.hostname with
  | none =>
    refine ⟨⟨[verdictLine (Context.ofChain request.role (leaf :: intermediates)) verdict],
      .ok verdict.isOk⟩, later, ?_, ?_⟩
    · simp [check, hbuilds, hholds, hvalidate, hhostname]
    · simp [hverdict]
  | some hostname =>
    obtain ⟨outcome, lines, last, hperform, haccepted⟩ :=
      checkHostname_perform settings.hostname hostname (leaf :: intermediates) leaf later
    refine ⟨⟨verdictLine (Context.ofChain request.role (leaf :: intermediates)) verdict :: lines,
      outcome.map (verdict.isOk && ·)⟩, last, ?_, ?_⟩
    · simp [check, hbuilds, hholds, hvalidate, hhostname, hperform]
    · have hboth : outcome.map (verdict.isOk && ·) = .ok true ↔
          verdict = .ok () ∧ outcome = .ok true := by
        cases outcome with
        | error failure => simp [Except.map]
        | ok isAccepted => simp [Except.map, hverdict]
      simp [hboth, haccepted]

/-- Without a validator or a chain, a check does not succeed. -/
theorem loads_of_check {answer : Answer} {last : World}
    (hperform : (check engine now settings request).perform world = some (.ok answer, last))
    (hsucceeds : answer.outcome = .ok true) :
    ∃ validator after leaf intermediates,
      (World.buildSet engine settings.trust).perform world = some (.ok validator, after) ∧
      after.files.certificates request.chain = .ok (leaf :: intermediates) := by
  rw [check, Action.perform_bind] at hperform
  rcases hbuilds : (World.buildSet engine settings.trust).perform world with
    _ | ⟨error | validator, after⟩
  · rw [hbuilds] at hperform
    cases hperform
  · rw [hbuilds] at hperform
    cases hperform
  · rcases hholds : after.files.certificates request.chain with error | _ | ⟨leaf, intermediates⟩
    · simp [hbuilds, hholds] at hperform
    · simp [hbuilds, hholds] at hperform
      obtain ⟨rfl, -⟩ := hperform
      cases hsucceeds
    · exact ⟨validator, after, leaf, intermediates, rfl, hholds⟩

/-- A check that is carried out succeeds with the answer that says so. -/
theorem run_succeeds_iff {arguments : List String}
    (hparse : Request.parse arguments world.environment = .ok request)
    (hverb : request.verb = .check) :
    (run engine now world arguments).status = 0 ↔ ∃ settings answer last,
      Settings.load world.files world.environment request.config = .ok settings ∧
      (check engine now settings request).perform world = some (.ok answer, last) ∧
      answer.outcome = .ok true := by
  simp only [run, hparse, answer?]
  cases hloads : Settings.load world.files world.environment request.config with
  | error error => simp [Answer.report]
  | ok settings =>
    have hperform : perform engine now settings request = check engine now settings request := by
      rw [perform, hverb]
    dsimp only
    rw [hperform]
    rcases hcheck : (check engine now settings request).perform world with
      _ | ⟨error | answer, last⟩
    · simp [hcheck]
    · simp [hcheck, Answer.report]
    · simp [hcheck, Answer.report_status]

/-- **What succeeds.** A check succeeds exactly if everything is loaded, the validator accepts the
chain, and the policy about names accepts the name if one is given. -/
theorem succeeds_iff {arguments : List String}
    (hparse : Request.parse arguments world.environment = .ok request)
    (hverb : request.verb = .check) :
    (run engine now world arguments).status = 0 ↔ ∃ settings validator after leaf intermediates,
      Loaded engine world request settings validator after leaf intermediates ∧
      after.Accepts engine now validator (Context.ofChain request.role (leaf :: intermediates)) ∧
      ∀ hostname ∈ request.hostname,
        (settings.hostname.verifier.1.verify ⟨hostname, none, leaf :: intermediates⟩).1 = true := by
  rw [run_succeeds_iff hparse hverb]
  constructor
  · rintro ⟨settings, answer, last, hloads, hperform, hsucceeds⟩
    obtain ⟨validator, after, leaf, intermediates, hbuilds, hholds⟩ :=
      loads_of_check hperform hsucceeds
    obtain ⟨parts, hstands⟩ := World.exists_stands hbuilds
    obtain ⟨snapshot, hsnapshot⟩ := hstands.returns
    have hvalidate := World.validate_perform_of_snapshot hsnapshot engine now
      (Context.ofChain request.role (leaf :: intermediates))
    obtain ⟨other, _, hother, houtcome⟩ := check_perform hbuilds hholds hvalidate
    obtain rfl : other = answer := by
      rw [hother] at hperform
      cases hperform
      rfl
    obtain ⟨hverdict, hnamed⟩ := houtcome.mp hsucceeds
    refine ⟨settings, validator, after, leaf, intermediates, ⟨hloads, hbuilds, hholds⟩, ?_, hnamed⟩
    exact (World.accepts_iff_verdict hsnapshot).mpr hverdict
  · rintro ⟨settings, validator, after, leaf, intermediates, hloaded, ⟨later, hvalidate⟩, hnamed⟩
    obtain ⟨answer, last, hperform, houtcome⟩ :=
      check_perform hloaded.builds hloaded.holds hvalidate
    exact ⟨settings, answer, last, hloaded.loads, hperform, houtcome.mpr ⟨rfl, hnamed⟩⟩

/-- The decision of a handshake about a chain whose name is accepted is that of the check. -/
theorem Loaded.decide_admits_iff
    (hloaded : Loaded engine world request settings validator after leaf intermediates)
    (connection : Connection) (policy : Hostname.Verifier) :
    (connection.decide engine now request.role validator policy leaf intermediates).Admits after ↔
      after.Accepts engine now validator (Context.ofChain request.role (leaf :: intermediates)) ∧
        (request.role = .server → (policy.verify
          ⟨connection.name.toText, connection.peerHost, leaf :: intermediates⟩).1 = true) := by
  obtain ⟨parts, hstands⟩ := World.exists_stands hloaded.builds
  obtain ⟨snapshot, hsnapshot⟩ := hstands.returns
  cases hrole : request.role with
  | client =>
    have hadmits := @ClientVerifier.admits_iff engine now after snapshot leaf intermediates
      ⟨validator, connection.hints, connection.isMandatory, connection.mode⟩ hsnapshot
    exact hadmits.trans (and_iff_left nofun).symm
  | server =>
    have hadmits := @ServerVerifier.admits_iff engine now after snapshot leaf intermediates
      ⟨validator, policy, connection.peerAddress, connection.peerHost⟩ connection.name hsnapshot
    exact hadmits.trans (and_congr (hstands.accepts_congr rfl rfl) (imp_iff_right rfl).symm)

/-- **Checks predict handshakes.** Without a host name, a check succeeds exactly if everything is
loaded and the verifier that faces a peer in this role, with the policy that accepts every name,
admits the chain. For a server and a proper server name, under a policy that looks at the certificate
only, it succeeds exactly if everything is loaded and the verifier with this policy admits the chain
for the name. In all other cases it succeeds exactly if the chain is admitted as without a host name,
and the policy accepts the host name for the chain: a name never saves a chain that is rejected. -/
theorem check_predicts_handshake {arguments : List String}
    (hparse : Request.parse arguments world.environment = .ok request)
    (hverb : request.verb = .check) (connection : Connection) :
    (request.hostname = none →
      ((run engine now world arguments).status = 0 ↔
        ∃ settings validator after leaf intermediates,
          Loaded engine world request settings validator after leaf intermediates ∧
          (connection.decide engine now request.role validator .acceptAll leaf
            intermediates).Admits after)) ∧
    (∀ hostname, request.hostname = some hostname → request.role = .server →
      ServerName.parse? hostname = some connection.name →
      (∀ settings, Settings.load world.files world.environment request.config = .ok settings →
        settings.hostname = .names ∨ settings.hostname = .acceptAll) →
      ((run engine now world arguments).status = 0 ↔
        ∃ settings validator after leaf intermediates,
          Loaded engine world request settings validator after leaf intermediates ∧
          (connection.decide engine now .server validator settings.hostname.verifier.1 leaf
            intermediates).Admits after)) ∧
    ∀ hostname, request.hostname = some hostname →
      ((run engine now world arguments).status = 0 ↔
        ∃ settings validator after leaf intermediates,
          Loaded engine world request settings validator after leaf intermediates ∧
          (connection.decide engine now request.role validator .acceptAll leaf
            intermediates).Admits after ∧
          (settings.hostname.verifier.1.verify ⟨hostname, none, leaf :: intermediates⟩).1 =
            true) := by
  have hall (request : Hostname.Request) : (Hostname.Verifier.acceptAll.verify request).1 = true :=
    rfl
  rw [succeeds_iff hparse hverb]
  refine ⟨fun hnone => ?_, fun hostname hsome hrole hname hpolicy => ?_, fun hostname hsome => ?_⟩
  · refine exists_congr fun settings => exists_congr fun validator => exists_congr fun after =>
      exists_congr fun leaf => exists_congr fun intermediates => and_congr_right fun hloaded => ?_
    rw [hloaded.decide_admits_iff]
    simp [hnone, hall]
  · refine exists_congr fun settings => exists_congr fun validator => exists_congr fun after =>
      exists_congr fun leaf => exists_congr fun intermediates => and_congr_right fun hloaded => ?_
    have hverifier : settings.hostname.verifier.1 = .names ∨
        settings.hostname.verifier.1 = .acceptAll := by
      rcases hpolicy settings hloaded.loads with hnames | haccepts
      · exact Or.inl (by rw [hnames]; rfl)
      · exact Or.inr (by rw [haccepts]; rfl)
    have hdecide := @Loaded.decide_admits_iff engine now _ _ _ _ _ _ _ hloaded connection
      settings.hostname.verifier.1
    rw [hrole] at hdecide ⊢
    rw [hdecide, Hostname.Verifier.verify_toText hverifier hname]
    simp [hsome]
  · refine exists_congr fun settings => exists_congr fun validator => exists_congr fun after =>
      exists_congr fun leaf => exists_congr fun intermediates => and_congr_right fun hloaded => ?_
    rw [hloaded.decide_admits_iff]
    simp [hsome, hall]

end

/-- A world with a chain of one certificate, and a variable that has every chain accepted. -/
def trustingWorld : World :=
  .start
    ⟨[(["c"], .file (Bytes.ofString
      "-----BEGIN CERTIFICATE-----\nAQ==\n-----END CERTIFICATE-----\n"))], []⟩
    [("MTLS_TRUST_TRUST__UNSAFE_TRUST_ALL", "true")]

open Settings in
theorem load_trustingWorld :
    Settings.load trustingWorld.files trustingWorld.environment none =
      .ok { Settings.initial with trust := { TrustSettings.initial with trustAll := true } } := by
  have hkeys : keysOf? "MTLS_TRUST_TRUST__UNSAFE_TRUST_ALL" =
      some ["trust", "unsafe_trust_all"] := by rfl
  have hvalue : Value.ofNotation .environment "true" = .scalar .environment (.flag true) := by rfl
  have henvironment : Value.ofEnvironment trustingWorld.environment = .map .environment
      [("trust", .map .environment
        [("unsafe_trust_all", .scalar .environment (.flag true))])] := by
    simp only [trustingWorld, World.start, Value.ofEnvironment, List.mergeSort_singleton,
      List.foldl_cons, List.foldl_nil, hkeys, hvalue]
    rfl
  simp only [Settings.load, merged, henvironment]
  rfl

/-- Where every chain is accepted, the check of a chain succeeds, and the chain is admitted. -/
theorem check_succeeds_trustingWorld : ∃ request,
    Request.parse ["check", "--chain", "c"] trustingWorld.environment = .ok request ∧
    (run .paths 0 trustingWorld ["check", "--chain", "c"]).status = 0 ∧
    ∃ settings validator after leaf intermediates,
      Loaded .paths trustingWorld request settings validator after leaf intermediates ∧
      (Connection.decide ⟨[], true, none, none, none, .dns "a"⟩ .paths 0 request.role validator
        .acceptAll leaf intermediates).Admits after := by
  have hparse : Request.parse ["check", "--chain", "c"] trustingWorld.environment =
      .ok ⟨none, "info", none, .check, [(.chain, "c")]⟩ := by rfl
  have hholds : trustingWorld.files.certificates "c" = .ok [⟨[1]⟩] := by rfl
  have hloaded : Loaded .paths trustingWorld ⟨none, "info", none, .check, [(.chain, "c")]⟩ _
      (.hotSwappable 0) _ ⟨[1]⟩ [] := ⟨load_trustingWorld, rfl, hholds⟩
  have hstatus : (run .paths 0 trustingWorld ["check", "--chain", "c"]).status = 0 :=
    (succeeds_iff hparse rfl).mpr
      ⟨_, _, _, _, _, hloaded, (World.accepts_iff_verdict rfl).mpr rfl,
        fun _ hmem => absurd hmem (Option.not_mem_none _)⟩
  have hpredicts := @check_predicts_handshake .paths 0 _ _ _ hparse rfl
    ⟨[], true, none, none, none, .dns "a"⟩
  exact ⟨_, hparse, hstatus, (hpredicts.1 rfl).mp hstatus⟩

end CommandLine

end PeerTrust
