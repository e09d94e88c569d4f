import StylePrune.Text.Basic

/-!
# Options of a run

What a run may do besides pruning. Options are merged field by field: a field that is given replaces
the old value, a field that is left open keeps it.
-/

namespace StylePrune

/-- The options of a run. -/
structure Options where
  /-- The file to write the result to, if any. -/
  output : Option Text := none
  /-- Whether the result is made compact. -/
  minify : Bool := false
  /-- Whether sizes and time are reported. -/
  info : Bool := false
  /-- Whether the rejected selectors are reported. -/
  rejected : Bool := false
deriving DecidableEq, Repr

namespace Options

/-- New values for some of the options. -/
structure Changes where
  output : Option Text := none
  minify : Option Bool := none
  info : Option Bool := none
  rejected : Option Bool := none
deriving DecidableEq, Repr

/-- The options with the given values in place of the old ones. -/
def merged (o : Options) (c : Changes) : Options where
  output := c.output <|> o.output
  minify := c.minify.getD o.minify
  info := c.info.getD o.info
  rejected := c.rejected.getD o.rejected

/-- The file to write to; an empty name is none. -/
def target? (o : Options) : Option Text :=
  match o.output with
  | some [] => none
  | other => other

/-- Merging nothing changes nothing. -/
@[simp] theorem merged_empty (o : Options) : o.merged {} = o := by
  cases o
  simp [merged]

end Options

end StylePrune
