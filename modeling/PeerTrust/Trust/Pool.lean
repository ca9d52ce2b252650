import PeerTrust.Trust.Snapshot

/-!
# Pools

A pool is a set of anchors that grows while it is in use. An addition first publishes the validator
of the enlarged pool, and then appends the new certificates to the file of the pool, if it has one.
A certificate that could not be written stays in a queue, which the next addition writes first.
-/

namespace PeerTrust

/-- A pool of anchors. -/
structure Pool where
  certificates : List Certificate
  /-- Certificates of the pool that are not in its file yet, in the order in which they came. -/
  queue : List Certificate
  /-- The validator in use. -/
  published : Base
  /-- Accepts a chain whatever the anchors are. -/
  predicate : Option (Context → Bool)
  /-- The file that the pool starts from and is appended to. -/
  path : Option String

namespace Pool

/-- The choices for a new pool. -/
structure Options where
  path : Option String
  predicate : Option (Context → Bool)
  algorithm : Algorithm

/-- A pool without a file and without a predicate. -/
def Options.plain : Options := ⟨none, none, .default⟩

/-- The certificates in a file, if the file is there. -/
def seed (files : Files) (path : Option String) : Except TrustError (List Certificate) :=
  match path with
  | none => .ok []
  | some path =>
      if files.isThere path then
        match files.read path with
        | .error fault => .error (.unreadable path fault)
        | .ok text =>
            match Pem.certificates text with
            | .error fault => .error (.configuration (.malformedPool path fault))
            | .ok contents => .ok (contents.map Certificate.mk)
      else .ok []

/-- A new pool with the certificates of its file. -/
def create (engine : Engine) (files : Files) (options : Options) : Except TrustError Pool := do
  options.algorithm.check
  let store := Store.ofList (← seed files options.path)
  let published ← Base.ofStore engine store
  return ⟨store.certificates, [], published, options.predicate, options.path⟩

/-- What is told to the log when a pool is made. -/
def creationEvents (pool : Pool) : List Event :=
  pool.published.events ++ [.poolCreated pool.certificates.length pool.path]

/-- The certificates of a batch that are new to a pool, each once. -/
def fresh (pool : Pool) (batch : List Certificate) : List Certificate :=
  extendUnique [] (batch.filter fun certificate => certificate ∉ pool.certificates)

/-- The pool with new certificates, whose validator is published. Where nothing is new, nothing is
published. -/
def inflate (engine : Engine) (pool : Pool) (new : List Certificate) : Except TrustError Pool :=
  if new.isEmpty then .ok pool
  else do
    let certificates := pool.certificates ++ new
    let published ← Base.ofStore engine (Store.ofList certificates)
    return { pool with certificates, published }

/-- The text of certificates, one section after the other. -/
def sections (certificates : List Certificate) : Bytes :=
  certificates.flatMap fun certificate => Pem.encode certificate.der

/-- A way to append to a file that changes a storage, also where it fails. -/
abbrev Append (Storage : Type) := Storage → String → Bytes → Storage × Except FileFault Unit

/-- What an addition leaves behind. -/
structure Addition (Storage : Type) where
  pool : Pool
  storage : Storage
  events : List Event
  /-- The number of new certificates. -/
  outcome : Except TrustError Nat

section
variable {Storage : Type} (append : Append Storage)

/-- Writes the queue of a pool to its file. -/
def persist (pool : Pool) (storage : Storage) (path : String) :
    Pool × Storage × List Event × Except TrustError Unit :=
  if pool.queue.isEmpty then (pool, storage, [], .ok ())
  else
    match append storage path (sections pool.queue) with
    | (storage, .ok ()) =>
        ({ pool with queue := [] }, storage, [.poolPersisted path pool.queue.length], .ok ())
    | (storage, .error fault) =>
        let error := TrustError.unwritable fault
        (pool, storage, [.persistFailed path pool.queue.length error.message], .error error)

/-- Adds certificates to a pool. If one of the new ones is no anchor, nothing is added. -/
def add (engine : Engine) (pool : Pool) (storage : Storage) (batch : List Certificate) :
    Addition Storage :=
  let new := pool.fresh batch
  match pool.inflate engine new with
  | .error error => ⟨pool, storage, [], .error error⟩
  | .ok inflated =>
      let told : List Event :=
        if new.isEmpty then [] else [.poolInflated new.length inflated.certificates.length]
      match pool.path with
      | none => ⟨inflated, storage, told, .ok new.length⟩
      | some path =>
          let queued := { inflated with queue := inflated.queue ++ new }
          let (written, storage, events, outcome) := queued.persist append storage path
          ⟨written, storage, told ++ events, outcome.map fun _ => new.length⟩

end

/-- The verdict of a pool: its predicate accepts, or its published validator decides. -/
def verdict (engine : Engine) (now : Nat) (published : Base)
    (predicate : Option (Context → Bool)) (context : Context) : Verdict :=
  match predicate with
  | some accepts => if accepts context then .ok () else published.validate engine now context
  | none => published.validate engine now context

/-- The snapshot of a pool. -/
def snapshot (pool : Pool) (number : Nat) : Snapshot :=
  .inflatable number pool.published pool.predicate

/-- What a pool shows of itself. -/
def debugText (pool : Pool) : String :=
  s!"InflatableTrustValidator \x7b pool_size: {pool.certificates.length}, has_predicate: " ++
    s!"{Event.flagText pool.predicate.isSome}, persisted: {Quoted.quoteOption pool.path}, .. \x7d"

end Pool

end PeerTrust
