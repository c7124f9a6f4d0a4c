import ImportResolution.Text

/-! How a specifier ended: the type of a resolved one, and for an unresolved one a reason code with
the failure cause, disposition and stage that the decision table fixes for it. -/
namespace ImportResolution

inductive ResolutionState
  | resolved
  | unresolved
  deriving DecidableEq, Repr

def ResolutionState.name : ResolutionState → String
  | resolved => "resolved"
  | unresolved => "unresolved"

inductive ResolvedType
  | relative | tsPath | pluginAlias | rubyLoadPath | pythonModule | perlPackage | luaModule
  | phpNamespace | shellPath | goModule | javaPackage | kotlinPackage | cSharpNamespace
  | swiftModule | dartModule | scalaPackage | groovyPackage | juliaModule | cLikeInclude
  | rustModule | pathLike | external | unresolved
  deriving DecidableEq, Repr

namespace ResolvedType

def name : ResolvedType → String
  | relative => "relative"
  | tsPath => "ts-path"
  | pluginAlias => "plugin-alias"
  | rubyLoadPath => "ruby-load-path"
  | pythonModule => "python-module"
  | perlPackage => "perl-package"
  | luaModule => "lua-module"
  | phpNamespace => "php-namespace"
  | shellPath => "shell-path"
  | goModule => "go-module"
  | javaPackage => "java-package"
  | kotlinPackage => "kotlin-package"
  | cSharpNamespace => "csharp-namespace"
  | swiftModule => "swift-module"
  | dartModule => "dart-module"
  | scalaPackage => "scala-package"
  | groovyPackage => "groovy-package"
  | juliaModule => "julia-module"
  | cLikeInclude => "clike-include"
  | rustModule => "rust-module"
  | pathLike => "path-like"
  | external => "external"
  | unresolved => "unresolved"

def all : List ResolvedType :=
  [relative,tsPath,pluginAlias,rubyLoadPath,pythonModule,perlPackage,luaModule,phpNamespace,
   shellPath,goModule,javaPackage,kotlinPackage,cSharpNamespace,swiftModule,dartModule,
   scalaPackage,groovyPackage,juliaModule,cLikeInclude,rustModule,pathLike,external,unresolved]

def ofName? (s : String) : Option ResolvedType := all.find? (·.name == s)

@[simp] theorem ofName?_name (t : ResolvedType) : ofName? t.name = some t := by
  cases t <;> decide

/-- Hits in the repository: neither external nor unresolved. -/
def isInRepo : ResolvedType → Bool
  | external | unresolved => false
  | _ => true

def state : ResolvedType → ResolutionState
  | unresolved => .unresolved
  | _ => .resolved

end ResolvedType

inductive ReasonCode
  | missingFileRelative
  | missingDependencyPackage
  | generatedExpectedMissing
  | resolverBudgetExhausted
  | parserNoiseSuppressed
  | fixtureReference
  | optionalDependency
  | pathNormalization
  | typo
  | parseError
  | resolverGap
  | unknown
  deriving DecidableEq, Repr

inductive FailureCause
  | missingFile
  | missingDependency
  | generatedExpectedMissing
  | parserArtifact
  | resolverGap
  | parseError
  | unknown
  deriving DecidableEq, Repr

inductive Disposition
  | actionable
  | suppressLive
  | suppressGate
  deriving DecidableEq, Repr

inductive Stage
  | collector
  | normalize
  | languageResolver
  | buildSystemResolver
  | filesystemProbe
  | classify
  deriving DecidableEq, Repr

namespace ReasonCode

def family : String := "IMP_U_"

def shortName : ReasonCode → String
  | missingFileRelative => "MISSING_FILE_RELATIVE"
  | missingDependencyPackage => "MISSING_DEPENDENCY_PACKAGE"
  | generatedExpectedMissing => "GENERATED_EXPECTED_MISSING"
  | resolverBudgetExhausted => "RESOLVER_BUDGET_EXHAUSTED"
  | parserNoiseSuppressed => "PARSER_NOISE_SUPPRESSED"
  | fixtureReference => "FIXTURE_REFERENCE"
  | optionalDependency => "OPTIONAL_DEPENDENCY"
  | pathNormalization => "PATH_NORMALIZATION"
  | typo => "TYPO"
  | parseError => "PARSE_ERROR"
  | resolverGap => "RESOLVER_GAP"
  | unknown => "UNKNOWN"

def name (c : ReasonCode) : String := family ++ c.shortName

def all : List ReasonCode :=
  [missingFileRelative,missingDependencyPackage,generatedExpectedMissing,resolverBudgetExhausted,
   parserNoiseSuppressed,fixtureReference,optionalDependency,pathNormalization,typo,parseError,
   resolverGap,unknown]

def ofName? (s : String) : Option ReasonCode := all.find? (·.name == s)

@[simp] theorem ofName?_name (c : ReasonCode) : ofName? c.name = some c := by cases c <;> decide

/-- Reads a code with or without the family in front. -/
def parse? (s : String) : Option ReasonCode :=
  let value := Text.trim s
  let bare := (Text.afterHead? family value).getD value
  all.find? (·.shortName == bare)

end ReasonCode

namespace FailureCause

def name : FailureCause → String
  | missingFile => "missing_file"
  | missingDependency => "missing_dependency"
  | generatedExpectedMissing => "generated_expected_missing"
  | parserArtifact => "parser_artifact"
  | resolverGap => "resolver_gap"
  | parseError => "parse_error"
  | unknown => "unknown"

def all : List FailureCause :=
  [missingFile,missingDependency,generatedExpectedMissing,parserArtifact,resolverGap,parseError,
   unknown]

def ofName? (s : String) : Option FailureCause := all.find? (·.name == s)

@[simp] theorem ofName?_name (c : FailureCause) : ofName? c.name = some c := by cases c <;> decide

/-- Causes that no disposition may call actionable. -/
def forbidsActionable : FailureCause → Bool
  | parserArtifact | resolverGap | generatedExpectedMissing => true
  | _ => false

end FailureCause

namespace Disposition

def name : Disposition → String
  | actionable => "actionable"
  | suppressLive => "suppress_live"
  | suppressGate => "suppress_gate"

def all : List Disposition := [actionable,suppressLive,suppressGate]
def ofName? (s : String) : Option Disposition := all.find? (·.name == s)

@[simp] theorem ofName?_name (d : Disposition) : ofName? d.name = some d := by cases d <;> decide

end Disposition

namespace Stage

def name : Stage → String
  | collector => "collector"
  | normalize => "normalize"
  | languageResolver => "language_resolver"
  | buildSystemResolver => "build_system_resolver"
  | filesystemProbe => "filesystem_probe"
  | classify => "classify"

def all : List Stage :=
  [collector,normalize,languageResolver,buildSystemResolver,filesystemProbe,classify]

def ofName? (s : String) : Option Stage := all.find? (·.name == s)

@[simp] theorem ofName?_name (s : Stage) : ofName? s.name = some s := by cases s <;> decide

end Stage

/-- What an unresolved specifier carries. -/
structure Decision where
  reason : ReasonCode
  cause : FailureCause
  disposition : Disposition
  stage : Stage
  deriving DecidableEq, Repr

/-- The decision table. -/
def ReasonCode.decision (c : ReasonCode) : Decision :=
  match c with
  | .missingFileRelative => ⟨c,.missingFile,.actionable,.filesystemProbe⟩
  | .missingDependencyPackage => ⟨c,.missingDependency,.actionable,.languageResolver⟩
  | .generatedExpectedMissing => ⟨c,.generatedExpectedMissing,.suppressGate,.buildSystemResolver⟩
  | .resolverBudgetExhausted => ⟨c,.resolverGap,.suppressGate,.filesystemProbe⟩
  | .parserNoiseSuppressed => ⟨c,.parserArtifact,.suppressLive,.classify⟩
  | .fixtureReference => ⟨c,.parserArtifact,.suppressLive,.classify⟩
  | .optionalDependency => ⟨c,.missingDependency,.suppressLive,.classify⟩
  | .pathNormalization => ⟨c,.resolverGap,.suppressGate,.normalize⟩
  | .typo => ⟨c,.unknown,.actionable,.classify⟩
  | .parseError => ⟨c,.parseError,.actionable,.collector⟩
  | .resolverGap => ⟨c,.resolverGap,.suppressGate,.languageResolver⟩
  | .unknown => ⟨c,.unknown,.actionable,.classify⟩

@[simp] theorem ReasonCode.reason_decision (c : ReasonCode) : c.decision.reason = c := by
  cases c <;> rfl

/-- The decision for a written code; an unknown code is laid to the stage that met it. -/
def Decision.ofCodeText (code : String) (stage : Stage) : Decision :=
  match ReasonCode.parse? code with
  | some c => c.decision
  | none => ⟨.unknown,.unknown,.actionable,stage⟩

/-- The fields of a decision as free text. -/
structure DecisionFields where
  state : Option String := none
  reasonCode : Option String := none
  failureCause : Option String := none
  disposition : Option String := none
  resolverStage : Option String := none
  deriving DecidableEq, Repr

inductive DecisionError
  | mustNotInclude (field : String)
  | requires (field : String)
  | unknownValue (field value : String)
  | actionableForbidden (cause : String)
  | invalidState (state : Option String)
  deriving DecidableEq, Repr

def DecisionError.message : DecisionError → String
  | mustNotInclude field => "resolved decision must not include " ++ field
  | requires field => "unresolved decision requires " ++ field
  | unknownValue field value => "unresolved decision has unknown " ++ field ++ "=" ++ value
  | actionableForbidden cause => "disposition=actionable not allowed for failureCause=" ++ cause
  | invalidState state => "invalid resolutionState: " ++ state.getD "null"

namespace DecisionFields

def hasText (value : Option String) : Bool := value.any fun v => !Text.isAllBlank v

def named (f : DecisionFields) : List (String × Option String) :=
  [("reasonCode",f.reasonCode),("failureCause",f.failureCause),("disposition",f.disposition),
   ("resolverStage",f.resolverStage)]

/-- Complaint about a value that is present but names nothing. -/
def unknownOf (field : String) (value : Option String) (isName : String → Bool) :
    List DecisionError :=
  match value with
  | some v => if hasText (some v) && !isName v then [.unknownValue field v] else []
  | none => []

/-- All violations, in the order of the fields. -/
def errors (f : DecisionFields) : List DecisionError :=
  if f.state = some "resolved" then
    (f.named.filter fun e => hasText e.2).map fun e => .mustNotInclude e.1
  else if f.state = some "unresolved" then
    let cause := f.failureCause.bind FailureCause.ofName?
    (f.named.filter fun e => !hasText e.2).map (fun e => DecisionError.requires e.1)
      ++ unknownOf "reasonCode" f.reasonCode (fun v => (ReasonCode.ofName? v).isSome)
      ++ unknownOf "failureCause" f.failureCause (fun v => (FailureCause.ofName? v).isSome)
      ++ unknownOf "disposition" f.disposition (fun v => (Disposition.ofName? v).isSome)
      ++ unknownOf "resolverStage" f.resolverStage (fun v => (Stage.ofName? v).isSome)
      ++ (if f.disposition = some Disposition.actionable.name
            ∧ cause.any FailureCause.forbidsActionable = true then
          [.actionableForbidden (f.failureCause.getD "")]
        else [])
  else [.invalidState f.state]

def validate (f : DecisionFields) : Except (List DecisionError) Unit :=
  if f.errors = [] then .ok () else .error f.errors

end DecisionFields
end ImportResolution
