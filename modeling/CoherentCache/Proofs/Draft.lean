import CoherentCache.Bytes

/-!
# Changing a copy

Whoever has to replace something as a whole or not at all works on a copy, and puts the copy in the
place of the original once nothing can go wrong any more.  A procedure of `EStateM` keeps the state
in which a fault was met, so that it can be told what a fault leaves behind.

* `Draft` : a copy that is being changed, and the original.
* `Draft.outcome` : what is told, and what is in the place of the original.
-/

namespace CoherentCache

/-- A copy that is being changed, and the original that it is to replace. -/
structure Draft (A : Type) where
  /-- The copy. -/
  copy : A
  /-- The original. -/
  original : A

namespace Draft

variable {A E : Type}

/-- Changes the copy. -/
def edit (change : A → A) : EStateM E (Draft A) Unit :=
  modify fun d => { d with copy := change d.copy }

/-- Puts the copy in the place of the original. -/
def handOver : EStateM E (Draft A) Unit := modify fun d => { d with original := d.copy }

/-- Follows a procedure: the reason that is told if there is a fault, and what is in the place of
the original afterwards. -/
def outcome (reason : E → Bytes) (procedure : EStateM E (Draft A) Unit) (d : Draft A) :
    Option Bytes × A :=
  match procedure.run d with
  | .ok _ d => (none, d.original)
  | .error fault d => (some (reason fault), d.original)

end Draft

end CoherentCache
