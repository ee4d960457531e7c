import ClassSieve.Json.Printer
import ClassSieve.Scan.Report

/-!
# Writing scan reports

A report is written as JSON or as a text with one line for each row.
-/
namespace ClassSieve

def Cache.statsJson (cache : Cache) : Json :=
  .object [("capacity", .natural cache.capacity), ("loaders", .natural cache.loaderCount),
    ("entries", .natural cache.size), ("hits", .natural cache.counts.hits),
    ("misses", .natural cache.counts.misses), ("parses", .natural cache.counts.parses),
    ("failures", .natural cache.counts.failures), ("refreshes", .natural cache.counts.refreshes),
    ("uncached", .natural cache.counts.uncached), ("evictions", .natural cache.counts.evictions)]

def Decision.title : Decision → String
  | included => "Include"
  | excluded => "Exclude"
  | noMatch => "NoMatch"

namespace Scan

namespace ClassRow

def toJson (row : ClassRow) : Json :=
  .object [("source", .string row.source), ("entry", .string row.entry),
    ("release", Json.ofOption .natural row.release),
    ("class_name", Json.ofOption .string row.className),
    ("decision", .string row.decision.name),
    ("super_name", Json.ofOption .string row.superName),
    ("interfaces", .natural row.interfaces), ("content_hash", .string row.contentHash),
    ("error", Json.ofOption (fun fault => .string fault.message) row.fault)]

def heading (row : ClassRow) : String :=
  let name := row.className.getD "<unknown>"
  match row.release with
  | some release => name ++ " (release " ++ toString release ++ ")"
  | none => name

def line (row : ClassRow) : String :=
  let start := "- " ++ row.heading ++ ": " ++ row.decision.title
  match row.fault with
  | some fault => start ++ " (" ++ fault.message ++ ")\n"
  | none =>
    start ++ ", super: " ++ row.superName.getD "-" ++ ", interfaces: " ++ toString row.interfaces
      ++ "\n"

end ClassRow

namespace Totals

def toJson (totals : Totals) : Json :=
  .object [("classes", .natural totals.classes), ("included", .natural totals.included),
    ("excluded", .natural totals.excluded), ("no_match", .natural totals.noMatch),
    ("failed", .natural totals.failed)]

def line (totals : Totals) : String :=
  "classes: " ++ toString totals.classes ++ " (include: " ++ toString totals.included
    ++ ", exclude: " ++ toString totals.excluded ++ ", no_match: " ++ toString totals.noMatch
    ++ ", failed: " ++ toString totals.failed ++ ")\n"

end Totals

namespace Report

def toJson (report : Report) : Json :=
  .object [("scanned_root", .string report.root), ("sources", .natural report.sources),
    ("rules_generation", .natural report.generation), ("duration_ms", .natural report.duration),
    ("totals", report.totals.toJson), ("cache", report.cache.statsJson),
    ("classes", .array (report.rows.map ClassRow.toJson))]

def toText (report : Report) : String :=
  "scanned_root: " ++ report.root ++ "\nsources: " ++ toString report.sources ++ "\n"
    ++ report.totals.line ++ "duration_ms: " ++ toString report.duration ++ "\n"
    ++ String.join (report.rows.map ClassRow.line)

end Report

end Scan

end ClassSieve
