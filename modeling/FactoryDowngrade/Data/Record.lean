import FactoryDowngrade.Data.Layout
import FactoryDowngrade.Report

/-!
# Records as data

Sites, decisions, reports and plans in the form in which they are exchanged, and the checks that
read evidence, decisions, notes and summaries back from it.
-/

namespace FactoryDowngrade

namespace Data

/-- A text or nothing. -/
def ofText? (t : Option Text) : Data :=
  match t with
  | some t => .text (String.ofList t)
  | none => .null

/-- A whole number or nothing. -/
def ofInt? (n : Option Int) : Data :=
  match n with
  | some n => .int n
  | none => .null

/-- A count. -/
def ofNat (n : Nat) : Data :=
  .int n

end Data

namespace SourceSpan

/-- A span as data. -/
def toData (s : SourceSpan) : Data :=
  .table [
    ("start", .ofNat s.start), ("end", .ofNat s.stop),
    ("start_line", .ofNat s.startPosition.line), ("start_col", .ofNat s.startPosition.column),
    ("end_line", .ofNat s.stopPosition.line), ("end_col", .ofNat s.stopPosition.column)]

end SourceSpan

namespace SiteFault

/-- A fault as data, if there is one. -/
def toData? (fault : Option SiteFault) : Data :=
  match fault with
  | some fault => .text fault.message
  | none => .null

end SiteFault

namespace CallSite

/-- A call site as data. -/
def toData (s : CallSite) : Data :=
  .table [
    ("id", .text s.id), ("variant", .text s.variant.method),
    ("schema_name", .ofText? s.schemaName), ("argument_text", .text (String.ofList s.argumentText)),
    ("binding_name", .ofText? s.bindingName), ("source_span", s.sourceSpan.toData),
    ("callee_span", s.calleeSpan.toData),
    ("enclosing_variant", .ofText? (s.enclosingVariant.map (·.method.toList))),
    ("parse_error", SiteFault.toData? s.fault)]

end CallSite

namespace Evidence

/-- Evidence as data. -/
def toData (e : Evidence) : Data :=
  .table [("signal_name", .text e.signalName), ("matched", .bool e.isMatch),
    ("detail", .text e.detail)]

/-- Evidence read from data. -/
def check : Check.Of Evidence :=
  Check.record fun fields =>
    Evidence.mk <$> Check.required fields "signal_name" Check.text
      <*> Check.required fields "matched" Check.bool
      <*> Check.required fields "detail" Check.text

end Evidence

namespace Decision

/-- A decision as data. -/
def toData (d : Decision) : Data :=
  .table [
    ("call_site_id", .text d.siteId), ("from_variant", .text d.source.method),
    ("to_variant", .text d.target.method), ("rationale", .text d.rationale),
    ("applied", .bool d.applied), ("evidence", .list (d.evidence.map Evidence.toData)),
    ("parse_error", SiteFault.toData? d.fault)]

/-- A decision read from data. -/
def check : Check.Of Decision :=
  Check.record fun fields =>
    let variant := Check.named .enumeration Variant.ofMethod?
    Decision.mk <$> Check.required fields "call_site_id" Check.text
      <*> Check.required fields "from_variant" variant
      <*> Check.required fields "to_variant" variant
      <*> Check.required fields "rationale" Check.text
      <*> Check.defaulting fields "applied" false Check.bool
      <*> Check.defaulting fields "evidence" [] (Check.tupleOf Evidence.check)
      <*> (Check.defaulting fields "parse_error" none (Check.optional Check.text)).map
        (·.map SiteFault.reported)

end Decision

namespace Note

/-- A note as data. -/
def toData (n : Note) : Data :=
  .table [("level", .text n.level.name), ("code", .text n.code), ("message", .text n.message)]

/-- A note read from data. -/
def check : Check.Of Note :=
  Check.record fun fields =>
    Note.mk <$> Check.required fields "level" (Check.named .literal NoteLevel.ofName?)
      <*> Check.required fields "code" Check.text
      <*> Check.required fields "message" Check.text

end Note

namespace Summary

/-- A summary as data. -/
def toData (s : Summary) : Data :=
  .table [
    ("outcome", .text s.outcome.name), ("returncode", .ofInt? s.status),
    ("elapsed_seconds", .float s.elapsedSeconds),
    ("last_output_lines", .list (s.lastLines.map .text))]

/-- A summary read from data. -/
def check : Check.Of Summary :=
  Check.record fun fields =>
    Summary.mk <$> Check.required fields "outcome" (Check.named .literal Outcome.ofName?)
      <*> Check.required fields "returncode" (Check.optional Check.int)
      <*> Check.required fields "elapsed_seconds" Check.float
      <*> Check.defaulting fields "last_output_lines" [] (Check.tupleOf Check.text)

end Summary

namespace Report

/-- The version of the form in which reports are written. -/
def schemaVersion : Nat := 1

/-- A report as data, with its counts. -/
def toData (r : Report) : Data :=
  .table [
    ("schema_version", .ofNat schemaVersion),
    ("decisions", .list (r.decisions.map Decision.toData)),
    ("status", .text r.outcome.status.name),
    ("verification_attempted", .bool r.outcome.attempted),
    ("granularity", .text r.granularity.name), ("granularity_source", .text r.source.name),
    ("notes", .list (r.notes.map Note.toData)),
    ("verification",
      match r.outcome.verification with
      | some summary => summary.toData
      | none => .null),
    ("applied_count", .ofNat r.appliedCount), ("proposed_count", .ofNat r.proposedCount)]

/-- The text of a report, if its numbers can be exchanged as text. -/
def written? (r : Report) : Option String :=
  let data := r.toData
  if data.isPortable then some data.layout else none

end Report

namespace Plan

/-- A plan as data; the candidate text is left out. -/
def toData (p : Plan) : Data :=
  let a := p.analysis
  .table [
    ("granularity", .text a.resolution.granularity.name),
    ("granularity_source", .text a.resolution.source.name),
    ("sites", .list (a.sites.map CallSite.toData)),
    ("decisions", .list (a.decisions.map Decision.toData)),
    ("notes", .list (a.notes.map Note.toData)),
    ("proposed_count", .ofNat a.proposals.length)]

end Plan

end FactoryDowngrade
