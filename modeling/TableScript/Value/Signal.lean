/-!
How control flow leaves a block, and what a loop does about it.
-/

namespace TableScript

/-- What ended a block: its last statement, or a statement that goes elsewhere. -/
inductive Signal where
  | none
  | continue
  | break
  | return
deriving DecidableEq, Repr, Inhabited

/-- What a loop does after its body has run once. -/
inductive LoopStep where
  | next
  | exit
  | return
deriving DecidableEq, Repr

namespace Signal

def text : Signal → String
  | none => "none"
  | .continue => "continue"
  | .break => "break"
  | .return => "return"

/-- A loop goes on after `continue`, ends at `break`, and hands `return` on to what is around it. -/
def loopStep : Signal → LoopStep
  | none => .next
  | .continue => .next
  | .break => .exit
  | .return => .return

end Signal

end TableScript
