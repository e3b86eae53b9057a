import Linkage.Text.Extending
import Linkage.Text.Ignorable
import Linkage.Text.Invisible

/-!
# Printable characters

Which characters a quoted text shows as they are. Characters without a shape of their own are not
printable, nor those that a display may pass over, and neither are marks that would attach to
whatever stands before them.
-/

namespace Linkage.Text

/-- The character is shown as it is. -/
def isPrintable (c : Char) : Bool :=
  !invisible.contains c && !ignorable.contains c && !extending.contains c

end Linkage.Text
