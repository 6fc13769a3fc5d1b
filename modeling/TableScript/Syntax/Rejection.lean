import TableScript.Syntax.Complaint
import TableScript.Token.Span

/-!
How a grammar rule fails. A rule that has not committed itself leaves room for another one; a rule
that has recognised its construct fails for good, with a complaint.
-/

namespace TableScript

/-- The failure of a rule at some token, or at the end of the input. -/
structure Rejection where
  /-- The input ended, so that more tokens could make the rule match. -/
  wantsMore : Bool
  /-- The construct had begun, or had to be there: no other rule may be tried. -/
  committed : Bool
  complaint : Option Complaint
  /-- The token that did not fit. -/
  span : Option Span
deriving DecidableEq, Repr

namespace Rejection

/-- A rule that does not match at a token, or at the end when there is none. -/
def noMatch (span : Option Span) : Rejection :=
  { wantsMore := span.isNone, committed := false, complaint := none, span := span }

/-- A failure for good. The complaint of the innermost rule stays. -/
def because (r : Rejection) (complaint : Complaint) : Rejection :=
  { r with committed := true, complaint := r.complaint.or (some complaint) }

/-- A failure for good if the rule had to match. -/
def demanded (r : Rejection) (required : Bool) : Rejection :=
  { r with committed := r.committed || required }

/-- A failure that no further tokens can mend. -/
def final (r : Rejection) : Rejection :=
  { r with wantsMore := false }

@[simp]
theorem committed_because (r : Rejection) (complaint : Complaint) :
    (r.because complaint).committed = true :=
  rfl

/-- A reason given later changes nothing. -/
@[simp]
theorem because_because (r : Rejection) (inner outer : Complaint) :
    (r.because inner).because outer = r.because inner := by
  cases hcomplaint : r.complaint <;> simp [because, hcomplaint]

/-- A failure for good stays one, whatever is demanded. -/
@[simp]
theorem demanded_because (r : Rejection) (complaint : Complaint) (required : Bool) :
    (r.because complaint).demanded required = r.because complaint := by
  simp [demanded, because]

end Rejection

end TableScript
