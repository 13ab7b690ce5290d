import PassGraph.Clique.Summary
import PassGraph.Compare
import PassGraph.Json.Text
import PassGraph.Metrics
import PassGraph.Outline

/-!
# Reports

What the commands say about a graph, in words for a reader or as a JSON value. A report ends with a
line break.

## Main definitions

* `Report.inspection`, `Report.inspectionJson`
* `Report.cliques`, `Report.cliquesJson`
* `Report.hierarchyJson`
* `Report.comparison`, `Report.comparisonJson`
-/

namespace PassGraph.Report

/-- Words as a value. -/
def words (xs : List String) : Json :=
  .array (xs.map .string)

/-- A value as a report. -/
def ofJson (v : Json) : String :=
  v.text .pretty ++ "\n"

/-- Lines as a report. -/
def ofLines (lines : List String) : String :=
  String.join (lines.map fun line => line ++ "\n")

/-- The names of the nodes on the root that no edge enters. -/
def sources (g : Graph) : List String :=
  g.namesOf (g.sources Graph.root)

/-- The names of the nodes on the root that no edge leaves. -/
def sinks (g : Graph) : List String :=
  g.namesOf (g.sinks Graph.root)

/-- What there is in the graph of a file, with its outline if asked. -/
def inspection (g : Graph) (file : String) (outline : Bool) : String :=
  ofLines [
    "IHGraph Status",
    "==============",
    "File: " ++ file,
    "",
    g.metrics.text,
    "",
    "Roots: " ++ ", ".intercalate (sources g),
    "Sinks: " ++ ", ".intercalate (sinks g)]
  ++ if outline then "\n" ++ g.outline else ""

/-- What there is in a graph, as a value. -/
def inspectionJson (g : Graph) : Json :=
  .object [
    ("identifier", .string g.identifier),
    ("nodes", words (g.childNames Graph.root)),
    ("edgeTypes", words (g.typeNames Graph.root)),
    ("rootNodes", words (sources g)),
    ("sinkNodes", words (sinks g)),
    ("metrics", g.metrics.toJson)]

/-- Cliques in lines. -/
def cliques (ss : List CliqueSummary) : String :=
  if ss.isEmpty then ofLines ["No cliques."]
  else ofLines (ss.zipIdx.map fun (s, n) => s.line (n + 1))

/-- Cliques as a value. -/
def cliquesJson (ss : List CliqueSummary) : Json :=
  .array (ss.map (·.toJson))

/-- A hierarchy as a value. -/
def hierarchyJson (g : Graph) : Json :=
  .object [
    ("nodes", words (g.childNames Graph.root)),
    ("edgeTypes", words (g.typeNames Graph.root)),
    ("metrics", g.metrics.toJson)]

/-- What flattening changed, in lines. -/
def comparison (ds : List Difference) : String :=
  if ds.isEmpty then ofLines ["Flattened hierarchy matches the input."]
  else ofLines ("Flattened hierarchy differs from the input:" :: ds.map fun d => "  " ++ d.text)

/-- What flattening changed, as a value. -/
def comparisonJson (ds : List Difference) : Json :=
  .object [
    ("equal", .bool ds.isEmpty),
    ("differences", words (ds.map (·.text)))]

end PassGraph.Report
