import StylePrune.Compact.Style
import StylePrune.Files.Source
import StylePrune.Options
import StylePrune.Prune
import StylePrune.Summary
import StylePrune.Stylesheet.Note

/-!
# Runs

A run reads a stylesheet and content, takes from the stylesheet what the content does not use, and
summarises and writes as its options say. `clean` is the part between texts, `Run.perform` the whole
run on a file tree. The tree changes only at the very end of a run that has succeeded so far.
-/

namespace StylePrune

/-- A stylesheet without what its content does not use. -/
structure Cleaned where
  css : Text
  rejected : List Selector
  usage : Usage

/-- Takes from a stylesheet what a content does not use. -/
def clean (css content : Text) : Except ParseError Cleaned :=
  match Stylesheet.parse css with
  | .error e => .error e
  | .ok sheet =>
    let usage := Usage.ofContent sheet content
    .ok ⟨(sheet.prune usage.keeps).text, sheet.rejected usage.keeps, usage⟩

inductive RunError where
  | file (e : FileError)
  | parse (e : ParseError)
deriving DecidableEq, Repr

inductive LogLine where
  /-- Told only to those who ask for everything. -/
  | debug (text : Text)
  | info (text : Text)
deriving DecidableEq, Repr

/-- What a run gives: its result, its log, and the files as it leaves them. -/
structure Run where
  result : Except RunError Text
  log : List LogLine
  files : FileTree

/-- The summaries that are asked for. -/
def Run.summaries (o : Options) (before after : Nat) (rejected : List Selector) (took : Text) :
    List Text :=
  (if o.info then
    match Reduction.of? before after with
    | some ratio => Summary.sizes before after ratio took
    | none => []
  else []) ++
  if o.rejected then Summary.rejected rejected else []

/-- Runs on a file tree. `took` is the time that is reported. The stylesheet is read before the
content, and both before either is looked into. -/
def Run.perform (files : FileTree) (content css : Source) (o : Options) (took : Text) : Run :=
  match css.styleText files, content.contentText files with
  | .error e, _ => ⟨.error (.file e), [], files⟩
  | .ok _, .error e => ⟨.error (.file e), [], files⟩
  | .ok css, .ok content =>
    let notes := (Stylesheet.notes css).map LogLine.debug
    match clean css content with
    | .error e => ⟨.error (.parse e), notes, files⟩
    | .ok cleaned =>
      let result := if o.minify then Compact.style cleaned.css else cleaned.css
      let log := notes ++
        (summaries o css.length result.length cleaned.rejected took).map LogLine.info
      match o.target? with
      | none => ⟨.ok result, log, files⟩
      | some name =>
        match files.write name result with
        | .error e => ⟨.error (.file e), log, files⟩
        | .ok files => ⟨.ok result, log, files⟩

end StylePrune
