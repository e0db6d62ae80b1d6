import CilWeave.Definition.Basic

/-!
Settings of a weave: where annotations live, whether woven methods have to verify, and whether
annotations are left behind when members move.
-/

namespace CilWeave

/-- The annotations that direct a weave. -/
inductive Marker where
  | mixin
  | implements
  | overwrite
  | inject
  | captureLocal
  | storeLocal
  | captureField
deriving DecidableEq

namespace Marker

def name : Marker → String
  | .mixin => "Mixin"
  | .implements => "Implements"
  | .overwrite => "Overwrite"
  | .inject => "Inject"
  | .captureLocal => "CaptureLocal"
  | .storeLocal => "StoreLocal"
  | .captureField => "CaptureField"

def all : List Marker :=
  [.mixin, .implements, .overwrite, .inject, .captureLocal, .storeLocal, .captureField]

/-- The carrier of a callback into a method that returns nothing. -/
def plainCarrier : String := "CallbackInfo"

/-- The carrier of a callback into a method that returns a value. -/
def typedCarrier : String := "CallbackInfoReturnable`1"

end Marker

structure WeaveConfig where
  /-- the namespace of the annotations and carriers -/
  space : String
  /-- a woven method without consistent stack depths fails the weave -/
  verifyStack : Bool
  /-- annotations are not copied along with members -/
  stripAnnotations : Bool
deriving DecidableEq, Inhabited

namespace WeaveConfig

def standard : WeaveConfig := ⟨"DotMixin", true, true⟩

def lenient : WeaveConfig := { standard with verifyStack := false }

def ofSpace (space : String) : WeaveConfig := { standard with space }

variable (config : WeaveConfig)

/-- The full name of an annotation or carrier. -/
def attributeName (name : String) : String :=
  if config.space.isEmpty then name else config.space ++ "." ++ name

def isMarker (fullName : String) : Bool :=
  Marker.all.any fun marker => config.attributeName marker.name == fullName

/-- Attributes of one annotation, in order. -/
def markers (attributes : List Attribute) (marker : Marker) : List Attribute :=
  attributes.filter fun candidate => candidate.typeName == config.attributeName marker.name

def marker? (attributes : List Attribute) (marker : Marker) : Option Attribute :=
  (config.markers attributes marker).head?

end WeaveConfig

end CilWeave
