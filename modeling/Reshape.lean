import Reshape.Fixture.Corpus
import Reshape.Operation.Typed
import Reshape.Proofs.Edit.Prune
import Reshape.Proofs.Edit.Replace
import Reshape.Proofs.Reading
import Reshape.Proofs.Spec.Duplicates
import Reshape.Proofs.Edit.Modes
import Reshape.Proofs.Walk.Captures
import Reshape.Proofs.Pattern.Escaped
import Reshape.Proofs.Spec.Single
import Reshape.Proofs.Shift.Moved
import Reshape.Proofs.Edit.Container
import Reshape.Proofs.Edit.Holes
import Reshape.Proofs.Edit.Filled
import Reshape.Proofs.Edit.Defaults
import Reshape.Proofs.Edit.FirstElement
import Reshape.Proofs.Equality.Transform
import Reshape.Proofs.Expression.LookupArgument
import Reshape.Proofs.Walk.Local
import Reshape.Proofs.Shift.Unresolved
import Reshape.Proofs.Shift.Unmatched
import Reshape.Proofs.Shift.Identity
import Reshape.Proofs.Spec.Groups
import Reshape.Proofs.Edit.Failed
import Reshape.Proofs.Edit.Landing
import Reshape.Proofs.Edit.Commute
import Reshape.Proofs.Shift.Collected
import Reshape.Proofs.Pattern.Wildcard
import Reshape.Proofs.Pattern.Specific
import Reshape.Proofs.Edit.Restored
import Reshape.Proofs.Pattern.Padded
import Reshape.Proofs.Pattern.Caret
import Reshape.Proofs.Fixture.Located
import Reshape.Proofs.Fixture.Rearranged
import Reshape.Proofs.Function.IntegerSum
import Reshape.Proofs.Edit.IndexKey
import Reshape.Proofs.Function.IntegerOrder
import Reshape.Proofs.Walk.Discipline
import Reshape.Proofs.Spec.Counted
import Reshape.Proofs.Pattern.Cut
