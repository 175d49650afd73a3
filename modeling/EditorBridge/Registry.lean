/-
Where analyzers are found.  An analyzer is named by a module and a name in it; the
name may stand for the analyzer itself or for something that makes one.  The
modules around a module are loaded before it.
-/
import EditorBridge.Fault

namespace EditorBridge

/-- What a name in a module stands for. -/
inductive Offer (α : Type) where
  | nothing
  | analyzer (value : α)
  | maker (made : Except String (Option α))
  | unusable

/-- A module: the names in it, or why it cannot be loaded. -/
inductive Module (α : Type) where
  | names (offers : List (String × Offer α))
  | broken (cause : String)
  | faulty (fault : Fault)

/-- The modules that can be loaded. -/
structure Registry (α : Type) where
  modules : List (String × Module α) := []

/-- Why no analyzer can be had under a name. -/
inductive LoadError where
  | malformed
  | noModule (name : String)
  | noPackage (name parent : String)
  | broken (cause : String)
  | noName (name : String)
  | makerFailed (name cause : String)
  | noAnalyzer
deriving DecidableEq, Repr

def LoadError.reason : LoadError → String
  | .malformed => "expected 'module:attribute'"
  | .noModule name => "No module named " ++ Text.quoted name
  | .noPackage name parent =>
      "No module named " ++ Text.quoted name ++ "; " ++ Text.quoted parent ++ " is not a package"
  | .broken cause => cause
  | .noName name => "module has no attribute '" ++ name ++ "'"
  | .makerFailed name cause => name ++ "() failed: " ++ cause
  | .noAnalyzer => "object does not implement parse() and analyze()"

/-- Why loading ended: no analyzer can be had, or something else went wrong. -/
inductive LoadFailure where
  | refused (spec : String) (cause : LoadError)
  | fault (fault : Fault)

namespace LoadFailure

/-- The name under which a failure is reported. -/
def kind : LoadFailure → String
  | .refused _ _ => "AnalyzerLoadError"
  | .fault cause => cause.kind

def message : LoadFailure → Text
  | .refused spec cause => ("Cannot load analyzer '" ++ spec ++ "': " ++ cause.reason : String)
  | .fault cause => cause.message

end LoadFailure

namespace Registry

variable {α : Type}

/-- The module and the name that a specification names, divided by its first colon. -/
def splitSpec? (spec : String) : Option (String × String) :=
  let cs := spec.toList
  let name := cs.takeWhile (· != ':')
  let member := (cs.dropWhile (· != ':')).drop 1
  if name = [] || member = [] then none
  else some (String.ofList name, String.ofList member)

/-- The names of the modules around a module and its own, outermost first. -/
def lineage (name : String) : List String :=
  let parts := (Text.splitAt '.' name.toList).map String.ofList
  (List.range parts.length).map fun n => ".".intercalate (parts.take (n + 1))

/-- Whether a module has modules inside it. -/
def isPackage (registry : Registry α) (name : String) : Bool :=
  registry.modules.any fun entry => (name ++ ".").toList.isPrefixOf entry.1.toList

/-- Why loading a module ended. -/
inductive ImportFailure where
  | refused (cause : LoadError)
  | fault (fault : Fault)

/-- Load modules one inside the other, and give the names of the last one. -/
def loadChain (registry : Registry α) (parent : Option String)
    (offers : List (String × Offer α)) :
    List String → Except ImportFailure (List (String × Offer α))
  | [] => .ok offers
  | name :: rest =>
      match parent.filter fun parent => !registry.isPackage parent with
      | some parent => .error (.refused (.noPackage name parent))
      | none =>
          match registry.modules.lookup name with
          | none => .error (.refused (.noModule name))
          | some (.broken cause) => .error (.refused (.broken cause))
          | some (.faulty fault) => .error (.fault fault)
          | some (.names offers) => registry.loadChain (some name) offers rest

/-- Load a module.  A name that starts with a point is relative to nothing. -/
def loadModule (registry : Registry α) (name : String) :
    Except ImportFailure (List (String × Offer α)) :=
  if name.toList.head? = some '.' then .error (.fault (.relativeModule name))
  else registry.loadChain none [] (lineage name)

/-- The analyzer that a name in a module stands for. -/
def pick (offers : List (String × Offer α)) (name : String) : Except LoadError α :=
  match offers.lookup name with
  | none | some .nothing => .error (.noName name)
  | some (.analyzer value) => .ok value
  | some (.maker (.ok (some value))) => .ok value
  | some (.maker (.error cause)) => .error (.makerFailed name cause)
  | some (.maker (.ok none)) | some .unusable => .error .noAnalyzer

def load (registry : Registry α) (spec : String) : Except LoadFailure α :=
  match splitSpec? spec with
  | none => .error (.refused spec .malformed)
  | some (name, member) =>
      match registry.loadModule name with
      | .error (.refused cause) => .error (.refused spec cause)
      | .error (.fault fault) => .error (.fault fault)
      | .ok offers => (pick offers member).mapError (LoadFailure.refused spec)

end Registry

end EditorBridge
