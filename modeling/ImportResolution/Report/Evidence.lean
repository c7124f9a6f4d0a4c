import ImportResolution.Artifact
import ImportResolution.Graph
import ImportResolution.Json
import ImportResolution.Language.Label

/-! What a verdict rests on, as JSON: decisions, labels, generated files, and counts of a graph. -/
namespace ImportResolution

def Decision.toJson (d : Decision) : Json :=
  .obj [("reasonCode",.str d.reason.name),("failureCause",.str d.cause.name),
    ("disposition",.str d.disposition.name),("resolverStage",.str d.stage.name)]

def Label.toJson (l : Label) : Json :=
  .obj [("repo",Json.optStr l.repo),("package",.str l.package),("target",.str l.target)]

def Artifact.Match.toJson : Artifact.Match → Json
  | .expectedOutput candidate =>
    .obj [("matched",.bool true),("source",.str "index"),
      ("matchType",.str "expected_output_path"),("candidate",.str candidate)]
  | .counterpart candidate source =>
    .obj [("matched",.bool true),("source",.str "index"),("matchType",.str "source_counterpart"),
      ("candidate",.str candidate),("sourcePath",.str source)]
  | .tokenHint =>
    .obj [("matched",.bool true),("source",.str "heuristic"),("matchType",.str "token_hint")]

def GraphCounters.toJson (c : GraphCounters) : Json :=
  .obj [("edgeTotal",Json.nat c.edgeTotal),("truncatedNodes",Json.nat c.truncatedNodes),
    ("truncatedEdges",Json.nat c.truncatedEdges),
    ("warningSuppressed",Json.nat c.warningSuppressed)]

def WarningOutcome.name : WarningOutcome → String
  | recorded => "Recorded"
  | duplicate => "Duplicate"
  | overflow => "Overflow"

end ImportResolution
