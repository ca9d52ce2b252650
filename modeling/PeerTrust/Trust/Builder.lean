import PeerTrust.Trust.Validator

/-!
# The builder

A builder gathers sources, and says whether the result is logged, whether it can be swapped, and
which custom decision stands on top of the sources. Wrappers always come in the same order: the
custom decision, then logging, then a slot.
-/

namespace PeerTrust

/-- Something that a validator is built from. -/
inductive Source where
  | validator (validator : Validator)
  | store (store : Store) (algorithm : Algorithm)
  /-- The anchors of the platform. -/
  | platform

/-- What a validator is built from, and how it is wrapped. -/
structure Builder where
  sources : List Source
  logging : Bool
  swappable : Bool
  enhancer : Option Enhancer

namespace Builder

/-- The builder that was told nothing. -/
def empty : Builder := ⟨[], false, false, none⟩

/-- Adds a source. -/
def withSource (builder : Builder) (source : Source) : Builder :=
  { builder with sources := builder.sources ++ [source] }

/-- Adds validators as sources. -/
def withValidators (builder : Builder) (validators : List Validator) : Builder :=
  { builder with sources := builder.sources ++ validators.map .validator }

/-- Adds stores as sources. -/
def withStores (builder : Builder) (stores : List Store) : Builder :=
  { builder with sources := builder.sources ++ stores.map (.store · .default) }

/-- Says whether the result is logged. -/
def withLogging (builder : Builder) (logging : Bool) : Builder := { builder with logging }

/-- Says whether the result stands in a slot. -/
def withSwappable (builder : Builder) (swappable : Bool) : Builder := { builder with swappable }

/-- Sets the custom decision in the place of an earlier one. -/
def withEnhancer (builder : Builder) (enhancer : Enhancer) : Builder :=
  { builder with enhancer := some enhancer }

/-- The validators of all sources, wrapped in the custom decision unless one of them accepts
everything. -/
def decide (builder : Builder) (validators : List Validator) : Validator :=
  match Validator.firstAcceptingAll? validators, builder.enhancer with
  | some accepting, _ => accepting
  | none, some enhancer => .enhanceable (Validator.unite validators) (some enhancer)
  | none, none => Validator.unite validators

/-- A validator, logged if the builder says so. -/
def log (builder : Builder) (validator : Validator) : Validator :=
  if builder.logging then .logging validator else validator

/-- What a builder shows of itself. -/
def debugText (builder : Builder) : String :=
  s!"TrustValidatorBuilder \x7b sources: {builder.sources.length}, logging: " ++
    s!"{Event.flagText builder.logging}, swappable: {Event.flagText builder.swappable}, " ++
    s!"has_enhancer: {Event.flagText builder.enhancer.isSome} \x7d"

end Builder

end PeerTrust
